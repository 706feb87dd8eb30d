import Mathlib.Data.List.Basic
import Mathlib.Tactic.Common

/-! A range cut into consecutive chunks: their slices put together are the range,
and slots written once for each chunk are the chunks' values in range order,
whatever the order of the writes. -/
namespace Ezthread.Chunks

variable {α β : Type*}

structure Chunk where
  index : Nat
  chunkBegin : Nat
  chunkEnd : Nat
  deriving DecidableEq

def slice (range : List α) (chunk : Chunk) : List α :=
  (range.drop chunk.chunkBegin).take (chunk.chunkEnd - chunk.chunkBegin)

/-- Nonempty chunks that follow one another, numbered from the index given. -/
inductive Span : Nat → Nat → List Chunk → Nat → Prop
  | nil (start i) : Span start i [] start
  | cons {start i : Nat} {chunk : Chunk} {rest : List Chunk} {stop : Nat} (begins : chunk.chunkBegin = start)
      (numbered : chunk.index = i) (nonempty : start < chunk.chunkEnd)
      (tail : Span chunk.chunkEnd (i + 1) rest stop) : Span start i (chunk :: rest) stop

theorem Span.le {start i stop : Nat} {chunks : List Chunk} (span : Span start i chunks stop) : start ≤ stop := by
  induction span with
  | nil => exact Nat.le_refl _
  | cons begins numbered nonempty tail ih => omega

theorem Span.index {start i stop : Nat} {chunks : List Chunk} (span : Span start i chunks stop) :
    ∀ chunk ∈ chunks, i ≤ chunk.index ∧ start ≤ chunk.chunkBegin := by
  induction span with
  | nil => simp
  | cons begins numbered nonempty tail ih =>
    intro other member
    rcases List.mem_cons.mp member with rfl | later
    · omega
    · have bound := ih other later
      omega

theorem Span.apart {start i stop : Nat} {chunks : List Chunk} (span : Span start i chunks stop) :
    ∀ a ∈ chunks, ∀ b ∈ chunks, a.index = b.index → a = b := by
  induction span with
  | nil => simp
  | cons begins numbered nonempty tail ih =>
    intro a first b second same
    rcases List.mem_cons.mp first with rfl | old <;> rcases List.mem_cons.mp second with rfl | other
    · rfl
    · have bound := (tail.index b other).1
      omega
    · have bound := (tail.index a old).1
      omega
    · exact ih a old b other same

theorem Span.slices {start i stop : Nat} {chunks : List Chunk} (span : Span start i chunks stop)
    (range : List α) : (chunks.map (slice range)).flatten = (range.drop start).take (stop - start) := by
  induction span with
  | nil => simp
  | @cons start i chunk rest stop begins numbered nonempty tail ih =>
    have beyond := tail.le
    rw [List.map_cons,List.flatten_cons,ih,slice,begins]
    have cut : stop - start = (chunk.chunkEnd - start) + (stop - chunk.chunkEnd) := by omega
    rw [cut,List.take_add,List.drop_drop]
    congr 3
    omega

/-- One write to each slot. -/
def write (value : Chunk → β) (slots : List β) (chunk : Chunk) : List β :=
  slots.set chunk.index (value chunk)

/-- The same, but for the chunks that have no value. -/
def store (value : Chunk → Option β) (slots : List β) (chunk : Chunk) : List β :=
  match value chunk with
  | some result => slots.set chunk.index result
  | none => slots

theorem store_any_order {start i stop : Nat} {chunks order : List Chunk} (span : Span start i chunks stop)
    (ordered : order.Perm chunks) (value : Chunk → Option β) (slots : List β) :
    order.foldl (store value) slots = chunks.foldl (store value) slots := by
  refine ordered.foldl_eq' (fun a first b second slots => ?_) slots
  by_cases same : a.index = b.index
  · rw [span.apart a (ordered.subset first) b (ordered.subset second) same]
  · unfold store
    cases value a with
    | none => rfl
    | some left =>
      cases value b with
      | none => rfl
      | some right => exact List.set_comm _ _ same

theorem write_any_order {start i stop : Nat} {chunks order : List Chunk} (span : Span start i chunks stop)
    (ordered : order.Perm chunks) (value : Chunk → β) (slots : List β) :
    order.foldl (write value) slots = chunks.foldl (write value) slots :=
  store_any_order span ordered (fun chunk => some (value chunk)) slots

theorem Span.writes {start i stop : Nat} {chunks : List Chunk} (span : Span start i chunks stop)
    (value : Chunk → β) (done : List β) (seed : β) (left : Nat) (numbered : done.length = i)
    (room : chunks.length ≤ left) :
    chunks.foldl (write value) (done ++ List.replicate left seed) =
      done ++ chunks.map value ++ List.replicate (left - chunks.length) seed := by
  induction span generalizing done left with
  | nil => simp
  | @cons start i chunk rest stop begins own nonempty tail ih =>
    obtain ⟨left,rfl⟩ : ∃ less, left = less + 1 := ⟨left - 1,by simp at room; omega⟩
    have written : write value (done ++ List.replicate (left + 1) seed) chunk =
        (done ++ [value chunk]) ++ List.replicate left seed := by
      simp [write,own,← numbered,List.replicate_succ]
    have fits : rest.length ≤ left := by simpa using room
    rw [List.foldl_cons,written,ih (done ++ [value chunk]) left (by simp [numbered]) fits]
    simp

end Ezthread.Chunks
