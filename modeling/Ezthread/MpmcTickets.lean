import Ezthread.MpmcQueue

/-! Tickets of `MPMCQueue`. A successful exchange on `m_tail` or `m_head` wins a
position; the invariant ties the sequence of each cell to how far the winner of
its position has come, as long as no position has left the signed range. -/
namespace Ezthread.MpmcQueue
open Transition Activation RingBuffer

variable {α : Type*} {moved : α → α} {w k : Nat} {s t : State α}

/-- The position a `Push` has won and not yet stored the sequence of. -/
def Call.producing : Call α → Option Nat
  | ⟨.push _,.writeData pos⟩ | ⟨.push _,.storePushed pos⟩ => some pos
  | _ => none

def Call.consuming : Call α → Option Nat
  | ⟨.pop,.readData pos⟩ | ⟨.pop,.storePopped pos _⟩ => some pos
  | _ => none

def Call.pushTicket : Call α → Option Nat
  | ⟨.push _,.pushed pos⟩ => some pos
  | call => call.producing

def Call.popTicket : Call α → Option Nat
  | ⟨.pop,.popped pos _⟩ => some pos
  | call => call.consuming

/-- What a call knows of the positions, its cell and its item. -/
def Fact (capacity : Nat) (s : State α) : Call α → Prop
  | ⟨.push _,.loadPosition⟩ | ⟨.pop,.loadPosition⟩ | ⟨.push _,.refused⟩ | ⟨.pop,.refused⟩ => True
  | ⟨.push _,.loadSequence pos⟩ => pos ≤ s.tail
  | ⟨.push _,.exchange pos⟩ => pos ≤ s.tail ∧ (pos = s.tail → (s.cell capacity pos).sequence = pos)
  | ⟨.push item,.writeData pos⟩ => s.pushed[pos]? = some item
  | ⟨.push item,.storePushed pos⟩ => s.pushed[pos]? = some item ∧ (s.cell capacity pos).data = item
  | ⟨.push item,.pushed pos⟩ => s.pushed[pos]? = some item
  | ⟨.pop,.loadSequence pos⟩ => pos ≤ s.head
  | ⟨.pop,.exchange pos⟩ => pos ≤ s.head ∧
      (pos = s.head → pos < s.tail ∧ ¬ Held Call.producing s.calls pos)
  | ⟨.pop,.readData pos⟩ => s.pushed[pos]? = some (s.cell capacity pos).data
  | ⟨.pop,.storePopped pos item⟩ => s.pushed[pos]? = some item
  | ⟨.pop,.popped pos item⟩ => pos < s.head ∧ s.pushed[pos]? = some item
  | _ => False

/-- The cell of a position in use reads `pos` while its `Push` writes, `pos + 1`
while its item is stored or being read, and `pos + Capacity` once it is free. -/
structure Inv (capacity : Nat) (s : State α) : Prop where
  tail : s.tail = s.pushed.length
  ordered : s.head ≤ s.tail
  bounded : s.tail ≤ s.head + capacity
  writing : ∀ pos, Held Call.producing s.calls pos →
    s.head ≤ pos ∧ pos < s.tail ∧ (s.cell capacity pos).sequence = pos
  reading : ∀ pos, Held Call.consuming s.calls pos →
    pos < s.head ∧ s.tail ≤ pos + capacity ∧ (s.cell capacity pos).sequence = pos + 1
  stored : ∀ pos, s.head ≤ pos → pos < s.tail → ¬ Held Call.producing s.calls pos →
    (s.cell capacity pos).sequence = pos + 1 ∧ s.pushed[pos]? = some (s.cell capacity pos).data
  free : ∀ pos, pos < s.head → s.tail ≤ pos + capacity → ¬ Held Call.consuming s.calls pos →
    (s.cell capacity pos).sequence = pos + capacity
  unused : ∀ pos, s.tail ≤ pos → pos < capacity → (s.cell capacity pos).sequence = pos
  facts : Every (fun _ call => Fact capacity s call) s.calls
  pushes : Exclusive Call.pushTicket s.calls
  pops : Exclusive Call.popTicket s.calls

theorem slot_eq (k pos : Nat) : slot (2 ^ k) pos = pos % 2 ^ k := mask_eq k pos

theorem slot_ne_later {low high : Nat} (later : low < high) (window : high < low + 2 ^ k) :
    slot (2 ^ k) high ≠ slot (2 ^ k) low := by
  rw [slot_eq,slot_eq]
  exact (slot_ne later window).symm

theorem slot_lap (k pos : Nat) : slot (2 ^ k) (pos + 2 ^ k) = slot (2 ^ k) pos := by
  rw [slot_eq,slot_eq,Nat.add_mod_right]

theorem cell_lap (s : State α) (k pos : Nat) : s.cell (2 ^ k) (pos + 2 ^ k) = s.cell (2 ^ k) pos := by
  simp only [State.cell,slot_lap]

theorem cell_setCell_same {capacity pos other : Nat} {cell : Cell α}
    (same : slot capacity other = slot capacity pos) : (s.setCell capacity pos cell).cell capacity other = cell := by
  simp [State.cell,State.setCell,same]

theorem cell_setCell_other {capacity pos other : Nat} {cell : Cell α}
    (apart : slot capacity other ≠ slot capacity pos) :
    (s.setCell capacity pos cell).cell capacity other = s.cell capacity other := by
  simp [State.cell,State.setCell,apart]

theorem sequence_setCell {capacity pos other : Nat} {cell : Cell α}
    (kept : cell.sequence = (s.cell capacity pos).sequence) :
    ((s.setCell capacity pos cell).cell capacity other).sequence = (s.cell capacity other).sequence := by
  by_cases same : slot capacity other = slot capacity pos
  · rw [cell_setCell_same same,kept,State.cell,State.cell,same]
  · rw [cell_setCell_other same]

theorem data_setCell {capacity pos other : Nat} {cell : Cell α}
    (kept : cell.data = (s.cell capacity pos).data) :
    ((s.setCell capacity pos cell).cell capacity other).data = (s.cell capacity other).data := by
  by_cases same : slot capacity other = slot capacity pos
  · rw [cell_setCell_same same,kept,State.cell,State.cell,same]
  · rw [cell_setCell_other same]

theorem diff_zero {seq pos : Nat} (inside : seq < 2 ^ w) (bound : pos < 2 ^ w) :
    diff w seq pos = 0 ↔ seq = pos := by
  unfold diff
  rw [← Int.sub_bmod,← Int.dvd_iff_bmod_eq_zero]
  constructor
  · intro divides
    have congruent := (Int.emod_eq_emod_iff_emod_sub_eq_zero).mpr (Int.emod_eq_zero_of_dvd divides)
    rw [Int.emod_eq_of_lt (by omega) (by omega),Int.emod_eq_of_lt (by omega) (by omega)] at congruent
    omega
  · intro same
    subst same
    simp

theorem producing_pushTicket {call : Call α} {pos : Nat} (owns : call.producing = some pos) :
    call.pushTicket = some pos := by
  rcases call with ⟨operation,point⟩
  cases operation <;> cases point <;> simp_all [Call.producing,Call.pushTicket]

theorem consuming_popTicket {call : Call α} {pos : Nat} (owns : call.consuming = some pos) :
    call.popTicket = some pos := by
  rcases call with ⟨operation,point⟩
  cases operation <;> cases point <;> simp_all [Call.consuming,Call.popTicket]

theorem Inv.producers {capacity : Nat} (inv : Inv capacity s) : Exclusive Call.producing s.calls :=
  fun i j a b pos first second owns shares =>
    inv.pushes i j a b pos first second (producing_pushTicket owns) (producing_pushTicket shares)

theorem Inv.consumers {capacity : Nat} (inv : Inv capacity s) : Exclusive Call.consuming s.calls :=
  fun i j a b pos first second owns shares =>
    inv.pops i j a b pos first second (consuming_popTicket owns) (consuming_popTicket shares)

theorem Fact.pushTicket_item {capacity : Nat} {call : Call α} (fact : Fact capacity s call) {pos : Nat}
    (owns : call.pushTicket = some pos) :
    ∃ item, call.operation = .push item ∧ s.pushed[pos]? = some item := by
  rcases call with ⟨operation,point⟩
  cases operation <;> cases point <;> simp_all [Fact,Call.producing,Call.pushTicket]

theorem Inv.pushTicket_lt {capacity : Nat} (inv : Inv capacity s) {j pos : Nat} {call : Call α}
    (found : s.calls[j]? = some call) (owns : call.pushTicket = some pos) : pos < s.tail := by
  obtain ⟨item,_,written⟩ := (inv.facts j call found).pushTicket_item owns
  rw [inv.tail]
  exact (List.getElem?_eq_some_iff.mp written).1

theorem Inv.popTicket_lt {capacity : Nat} (inv : Inv capacity s) {j pos : Nat} {call : Call α}
    (found : s.calls[j]? = some call) (owns : call.popTicket = some pos) : pos < s.head := by
  rcases shape : call with ⟨operation,point⟩
  by_cases busy : call.consuming = some pos
  · exact (inv.reading pos ⟨j,call,found,busy⟩).1
  · have fact := inv.facts j call found
    subst shape
    cases operation <;> cases point <;>
      simp_all [Fact,Call.consuming,Call.popTicket]

/-- The position whose cell a call is using, between its exchange and its store. -/
def Call.busy (call : Call α) : Option Nat := call.producing.or call.consuming

theorem busy_cases {call : Call α} {pos : Nat} (busy : call.busy = some pos) :
    call.producing = some pos ∨ call.consuming = some pos := by
  unfold Call.busy at busy
  cases writes : call.producing with
  | none =>
    rw [writes] at busy
    exact Or.inr busy
  | some own =>
    rw [writes] at busy
    exact Or.inl busy

theorem Inv.busy_window {capacity : Nat} (inv : Inv capacity s) {j pos : Nat} {call : Call α}
    (found : s.calls[j]? = some call) (busy : call.busy = some pos) :
    pos < s.tail ∧ s.tail ≤ pos + capacity := by
  have bounded := inv.bounded
  rcases busy_cases busy with writes | reads
  · obtain ⟨above,below,_⟩ := inv.writing pos ⟨j,call,found,writes⟩
    omega
  · obtain ⟨below,within,_⟩ := inv.reading pos ⟨j,call,found,reads⟩
    have ordered := inv.ordered
    omega

theorem window_slot_ne {tail first second : Nat} (low : first < tail) (high : tail ≤ first + 2 ^ k)
    (below : second < tail) (above : tail ≤ second + 2 ^ k) (different : first ≠ second) :
    slot (2 ^ k) first ≠ slot (2 ^ k) second := by
  rcases Nat.lt_or_gt_of_ne different with less | more
  · exact (slot_ne_later less (by omega)).symm
  · exact slot_ne_later more (by omega)

/-- No two calls use one cell at a time. -/
theorem Inv.busy_apart (inv : Inv (2 ^ k) s) {i j first second : Nat} {a b : Call α}
    (foundFirst : s.calls[i]? = some a) (foundSecond : s.calls[j]? = some b)
    (busyFirst : a.busy = some first) (busySecond : b.busy = some second) (other : i ≠ j) :
    slot (2 ^ k) first ≠ slot (2 ^ k) second := by
  obtain ⟨low,high⟩ := inv.busy_window foundFirst busyFirst
  obtain ⟨below,above⟩ := inv.busy_window foundSecond busySecond
  apply window_slot_ne low high below above
  intro same
  subst same
  rcases busy_cases busyFirst with writes | reads <;> rcases busy_cases busySecond with shares | takes
  · exact other (inv.producers i j a b first foundFirst foundSecond writes shares)
  · have lower := (inv.writing first ⟨i,a,foundFirst,writes⟩).1
    have upper := (inv.reading first ⟨j,b,foundSecond,takes⟩).1
    omega
  · have lower := (inv.writing first ⟨j,b,foundSecond,shares⟩).1
    have upper := (inv.reading first ⟨i,a,foundFirst,reads⟩).1
    omega
  · exact other (inv.consumers i j a b first foundFirst foundSecond reads takes)

/-- What another call knows survives a step that moves the positions forward,
keeps the cell of an unclaimed tail and leaves this call's own data alone. -/
theorem Fact.frame {capacity : Nat} {call : Call α} (fact : Fact capacity s call)
    (tail : s.tail ≤ t.tail) (head : s.head ≤ t.head)
    (pushed : ∀ (pos : Nat) (item : α), s.pushed[pos]? = some item → t.pushed[pos]? = some item)
    (sequence : t.tail = s.tail → (s.cell capacity s.tail).sequence = s.tail →
      (t.cell capacity s.tail).sequence = s.tail)
    (produced : t.head = s.head → s.head < s.tail → Held Call.producing t.calls s.head →
      Held Call.producing s.calls s.head)
    (data : ∀ pos, call.busy = some pos → (t.cell capacity pos).data = (s.cell capacity pos).data) :
    Fact capacity t call := by
  rcases call with ⟨operation,point⟩
  cases operation with
  | push item =>
    cases point with
    | loadPosition | refused => trivial
    | loadSequence pos => exact Nat.le_trans fact tail
    | exchange pos =>
      obtain ⟨below,unclaimed⟩ := fact
      refine ⟨Nat.le_trans below tail,fun now => ?_⟩
      -- A position equal to the new tail was equal to the old one.
      have still : pos = s.tail := by omega
      have seq := sequence (by omega)
      rw [← still] at seq
      exact seq (unclaimed still)
    | writeData pos => exact pushed pos item fact
    | storePushed pos => exact ⟨pushed pos item fact.1,(data pos rfl).trans fact.2⟩
    | pushed pos => exact pushed pos item fact
    | _ => exact fact.elim
  | pop =>
    cases point with
    | loadPosition | refused => trivial
    | loadSequence pos => exact Nat.le_trans fact head
    | exchange pos =>
      obtain ⟨below,unclaimed⟩ := fact
      refine ⟨Nat.le_trans below head,fun now => ?_⟩
      have still : pos = s.head := by omega
      obtain ⟨inside,unheld⟩ := unclaimed still
      refine ⟨Nat.lt_of_lt_of_le inside tail,fun held => unheld ?_⟩
      rw [still] at held inside ⊢
      exact produced (by omega) inside held
    | readData pos =>
      have same : (t.cell capacity pos).data = (s.cell capacity pos).data := data pos rfl
      change t.pushed[pos]? = some _
      rw [same]
      exact pushed pos _ fact
    | storePopped pos item => exact pushed pos item fact
    | popped pos item => exact ⟨Nat.lt_of_lt_of_le fact.1 head,pushed pos item fact.2⟩
    | _ => exact fact.elim

/-- Other records of calls that hold the same positions. -/
theorem Inv.recall {capacity : Nat} {calls : List (Call α)} (inv : Inv capacity s)
    (writers : ∀ pos, Held Call.producing calls pos ↔ Held Call.producing s.calls pos)
    (readers : ∀ pos, Held Call.consuming calls pos ↔ Held Call.consuming s.calls pos)
    (facts : (∀ call, Fact capacity s call → Fact capacity {s with calls := calls} call) →
      Every (fun _ call => Fact capacity {s with calls := calls} call) calls)
    (pushes : Exclusive Call.pushTicket calls) (pops : Exclusive Call.popTicket calls) :
    Inv capacity {s with calls := calls} where
  tail := inv.tail
  ordered := inv.ordered
  bounded := inv.bounded
  writing pos held := inv.writing pos ((writers pos).mp held)
  reading pos held := inv.reading pos ((readers pos).mp held)
  stored pos above below unheld := inv.stored pos above below (mt (writers pos).mpr unheld)
  free pos below within unheld := inv.free pos below within (mt (readers pos).mpr unheld)
  unused := inv.unused
  facts := facts fun _ known => known.frame (Nat.le_refl _) (Nat.le_refl _) (fun _ _ written => written)
    (fun _ seq => seq) (fun _ _ held => (writers _).mp held) fun _ _ => rfl
  pushes := pushes
  pops := pops

theorem Inv.goto {capacity : Nat} (inv : Inv capacity s) {i : Nat} {old next : Call α}
    (found : s.calls[i]? = some old) (before : old.pushTicket = none ∧ old.popTicket = none)
    (after : next.pushTicket = none ∧ next.popTicket = none) (fact : Fact capacity s next) :
    Inv capacity (s.goto i next) := by
  have unowned {call : Call α} (free : call.pushTicket = none ∧ call.popTicket = none) :
      call.producing = none ∧ call.consuming = none := by
    constructor
    · cases owns : call.producing with
      | none => rfl
      | some pos => simp [producing_pushTicket owns] at free
    · cases owns : call.consuming with
      | none => rfl
      | some pos => simp [consuming_popTicket owns] at free
  have writers (pos : Nat) := Held.keep_iff Call.producing next found ((unowned after).1.trans (unowned before).1.symm) pos
  have readers (pos : Nat) := Held.keep_iff Call.consuming next found ((unowned after).2.trans (unowned before).2.symm) pos
  exact inv.recall writers readers (fun frame => (inv.facts.imp fun _ call _ known => frame call known).set (frame next fact))
    (inv.pushes.set found (by simp [after.1])) (inv.pops.set found (by simp [after.2]))

theorem Inv.writeCell (inv : Inv (2 ^ k) s) {i pos : Nat} {old next : Call α} {value : α}
    (found : s.calls[i]? = some old) (mine : old.busy = some pos)
    (producing : next.producing = old.producing) (consuming : next.consuming = old.consuming)
    (pushTicket : next.pushTicket = old.pushTicket) (popTicket : next.popTicket = old.popTicket)
    (fact : Fact (2 ^ k) ((s.goto i next).setCell (2 ^ k) pos {s.cell (2 ^ k) pos with data := value}) next) :
    Inv (2 ^ k) ((s.goto i next).setCell (2 ^ k) pos {s.cell (2 ^ k) pos with data := value}) := by
  have writers (pos : Nat) := Held.keep_iff Call.producing next found producing pos
  have readers (pos : Nat) := Held.keep_iff Call.consuming next found consuming pos
  have seq (other : Nat) : (((s.goto i next).setCell (2 ^ k) pos
      {s.cell (2 ^ k) pos with data := value}).cell (2 ^ k) other).sequence =
      (s.cell (2 ^ k) other).sequence := sequence_setCell (s := s.goto i next) rfl
  obtain ⟨low,high⟩ := inv.busy_window found mine
  exact {
    tail := inv.tail
    ordered := inv.ordered
    bounded := inv.bounded
    writing := fun other held => by
      rw [seq]
      exact inv.writing other ((writers other).mp held)
    reading := fun other held => by
      rw [seq]
      exact inv.reading other ((readers other).mp held)
    stored := fun other above below unheld => by
      have unwritten := mt (writers other).mpr unheld
      have different : other ≠ pos := by
        intro same
        subst same
        rcases busy_cases mine with writes | reads
        · exact unwritten ⟨i,old,found,writes⟩
        · have passed := (inv.reading other ⟨i,old,found,reads⟩).1
          exact Nat.lt_irrefl _ (Nat.lt_of_lt_of_le passed above)
      have bounded := inv.bounded
      have apart := window_slot_ne below (Nat.le_trans bounded (Nat.add_le_add_right above _)) low high different
      rw [cell_setCell_other apart]
      exact inv.stored other above below unwritten
    free := fun other below within unheld => by
      rw [seq]
      exact inv.free other below within (mt (readers other).mpr unheld)
    unused := fun other above below => by
      rw [seq]
      exact inv.unused other above below
    facts := by
      intro j call present
      rcases get_set present with ⟨rfl,rfl⟩ | ⟨other,kept⟩
      · exact fact
      · refine (inv.facts j call kept).frame (Nat.le_refl _) (Nat.le_refl _) (fun _ _ written => written)
          (fun _ same => (seq _).trans same) (fun _ _ held => (writers _).mp held) (fun busy owns => ?_)
        rw [cell_setCell_other (inv.busy_apart kept found owns mine other)]
        rfl
    pushes := inv.pushes.set found (fun _ owns => .inl (pushTicket ▸ owns))
    pops := inv.pops.set found (fun _ owns => .inl (popTicket ▸ owns)) }

/-- The store that ends a call's work on its cell: no call holds the position any more, and
the sequence is right for it, and for the tail if the cell is the tail's. -/
theorem Inv.storeSequence (inv : Inv (2 ^ k) s) {i pos sequence : Nat} {old next : Call α}
    (found : s.calls[i]? = some old) (low : pos < s.tail) (high : s.tail ≤ pos + 2 ^ k)
    (writers : ∀ other, Held Call.producing (s.calls.set i next) other ↔ other ≠ pos ∧ Held Call.producing s.calls other)
    (readers : ∀ other, Held Call.consuming (s.calls.set i next) other ↔ other ≠ pos ∧ Held Call.consuming s.calls other)
    (stored : s.head ≤ pos → sequence = pos + 1 ∧ s.pushed[pos]? = some (s.cell (2 ^ k) pos).data)
    (free : pos < s.head → sequence = pos + 2 ^ k)
    (turn : slot (2 ^ k) s.tail = slot (2 ^ k) pos → (s.cell (2 ^ k) pos).sequence = s.tail → sequence = s.tail)
    (pushTicket : next.pushTicket = old.pushTicket) (popTicket : next.popTicket = old.popTicket)
    (fact : Fact (2 ^ k) ((s.goto i next).setCell (2 ^ k) pos {s.cell (2 ^ k) pos with sequence := sequence}) next) :
    Inv (2 ^ k) ((s.goto i next).setCell (2 ^ k) pos {s.cell (2 ^ k) pos with sequence := sequence}) := by
  have bounded := inv.bounded
  have ordered := inv.ordered
  have far {other : Nat} (before : other < s.tail) (lap : s.tail ≤ other + 2 ^ k) (different : other ≠ pos) :
      ((s.goto i next).setCell (2 ^ k) pos {s.cell (2 ^ k) pos with sequence := sequence}).cell (2 ^ k) other =
        s.cell (2 ^ k) other :=
    cell_setCell_other (window_slot_ne before lap low high different)
  exact {
    tail := inv.tail
    ordered := ordered
    bounded := bounded
    writing := fun other held => by
      obtain ⟨different,kept⟩ := (writers other).mp held
      obtain ⟨lower,upper,seq⟩ := inv.writing other kept
      refine ⟨lower,upper,?_⟩
      rw [far upper (by omega) different]
      exact seq
    reading := fun other held => by
      obtain ⟨different,kept⟩ := (readers other).mp held
      obtain ⟨lower,upper,seq⟩ := inv.reading other kept
      refine ⟨lower,upper,?_⟩
      rw [far (by omega) upper different]
      exact seq
    stored := fun other lower upper unheld => by
      change s.head ≤ other at lower
      change other < s.tail at upper
      by_cases same : other = pos
      · subst same
        rw [cell_setCell_same rfl]
        exact stored lower
      · have unwritten : ¬ Held Call.producing s.calls other := fun kept => unheld ((writers other).mpr ⟨same,kept⟩)
        rw [far upper (by omega) same]
        exact inv.stored other lower upper unwritten
    free := fun other lower upper unheld => by
      change other < s.head at lower
      change s.tail ≤ other + 2 ^ k at upper
      by_cases same : other = pos
      · subst same
        rw [cell_setCell_same rfl]
        exact free lower
      · have unread : ¬ Held Call.consuming s.calls other := fun kept => unheld ((readers other).mpr ⟨same,kept⟩)
        rw [far (by omega) upper same]
        exact inv.free other lower upper unread
    unused := fun other lower upper => by
      change s.tail ≤ other at lower
      rw [cell_setCell_other (slot_ne_later (by omega) (by omega))]
      exact inv.unused other lower upper
    facts := by
      intro j call present
      rcases get_set present with ⟨rfl,rfl⟩ | ⟨other,kept⟩
      · exact fact
      · refine (inv.facts j call kept).frame (Nat.le_refl _) (Nat.le_refl _) (fun _ _ same => same) ?_
          (fun _ _ held => ((writers _).mp held).2) (fun busy owns => data_setCell (s := s.goto i _) rfl)
        intro _ seq
        by_cases same : slot (2 ^ k) s.tail = slot (2 ^ k) pos
        · have cells : s.cell (2 ^ k) s.tail = s.cell (2 ^ k) pos := by rw [State.cell,same]; rfl
          rw [cell_setCell_same same]
          exact turn same (cells ▸ seq)
        · rw [cell_setCell_other same]
          exact seq
    pushes := inv.pushes.set found (fun _ owns => .inl (pushTicket ▸ owns))
    pops := inv.pops.set found (fun _ owns => .inl (popTicket ▸ owns)) }

theorem Inv.storePushed (inv : Inv (2 ^ k) s) {i pos : Nat} {item : α}
    (found : s.calls[i]? = some ⟨.push item,.storePushed pos⟩) :
    Inv (2 ^ k) ((s.goto i ⟨.push item,.pushed pos⟩).setCell (2 ^ k) pos
      {s.cell (2 ^ k) pos with sequence := pos + 1}) := by
  obtain ⟨above,below,reads⟩ := inv.writing pos ⟨i,_,found,rfl⟩
  obtain ⟨written,data⟩ := inv.facts i _ found
  have bounded := inv.bounded
  have readers (other : Nat) := Held.keep_iff Call.consuming ⟨.push item,.pushed pos⟩ found rfl other
  have unread (other : Nat) (held : Held Call.consuming s.calls other) : other ≠ pos := by
    have passed := (inv.reading other held).1
    omega
  refine inv.storeSequence found below (by omega) (Held.release_iff _ inv.producers found rfl rfl)
    (fun other => (readers other).trans ⟨fun held => ⟨unread other held,held⟩,And.right⟩)
    (fun _ => ⟨rfl,written.trans (congrArg some data.symm)⟩) (fun passed => by omega) (fun _ same => ?_) rfl rfl written
  -- The cell of an unclaimed tail is not the one this call was writing.
  rw [reads] at same
  omega

theorem Inv.storePopped (inv : Inv (2 ^ k) s) {i pos : Nat} {item : α}
    (found : s.calls[i]? = some ⟨.pop,.storePopped pos item⟩) :
    Inv (2 ^ k) ((s.goto i ⟨.pop,.popped pos item⟩).setCell (2 ^ k) pos
      {s.cell (2 ^ k) pos with sequence := pos + 2 ^ k}) := by
  obtain ⟨above,within,_⟩ := inv.reading pos ⟨i,_,found,rfl⟩
  have written := inv.facts i _ found
  have ordered := inv.ordered
  have writers (other : Nat) := Held.keep_iff Call.producing ⟨.pop,.popped pos item⟩ found rfl other
  have unwritten (other : Nat) (held : Held Call.producing s.calls other) : other ≠ pos := by
    have claimed := (inv.writing other held).1
    omega
  refine inv.storeSequence found (by omega) within (fun other => (writers other).trans
    ⟨fun held => ⟨unwritten other held,held⟩,And.right⟩) (Held.release_iff _ inv.consumers found rfl rfl)
    (fun passed => by omega) (fun _ => rfl) (fun same _ => ?_) rfl rfl ⟨above,written⟩
  -- The cell freed for the tail's position is freed with exactly that position.
  by_contra different
  have apart : s.tail ≠ pos + 2 ^ k := Ne.symm different
  exact slot_ne_later (Nat.lt_of_lt_of_le above ordered) (by omega) same

theorem Inv.tail_sequence (inv : Inv (2 ^ k) s) : (s.cell (2 ^ k) s.tail).sequence ≤ s.tail := by
  have bounded := inv.bounded
  have size := Nat.two_pow_pos k
  rcases Nat.lt_or_ge s.tail (2 ^ k) with first | lap
  · rw [inv.unused s.tail (Nat.le_refl _) first]
  · obtain ⟨pos,last⟩ : ∃ pos, s.tail = pos + 2 ^ k := ⟨s.tail - 2 ^ k,by omega⟩
    have same : s.cell (2 ^ k) s.tail = s.cell (2 ^ k) pos := by rw [last,cell_lap]
    rw [same]
    rcases Nat.lt_or_ge pos s.head with passed | ahead
    · by_cases reads : Held Call.consuming s.calls pos
      · have seq := (inv.reading pos reads).2.2
        omega
      · have seq := inv.free pos passed (by omega) reads
        omega
    · by_cases writes : Held Call.producing s.calls pos
      · have seq := (inv.writing pos writes).2.2
        omega
      · have seq := (inv.stored pos ahead (by omega) writes).1
        omega

theorem Inv.head_ready (inv : Inv (2 ^ k) s) (ready : (s.cell (2 ^ k) s.head).sequence = s.head + 1) :
    s.head < s.tail ∧ ¬ Held Call.producing s.calls s.head := by
  have ordered := inv.ordered
  constructor
  · by_contra empty
    have same : s.head = s.tail := by omega
    have seq := inv.tail_sequence
    rw [← same] at seq
    omega
  · intro writes
    have seq := (inv.writing s.head writes).2.2
    omega

theorem Inv.head_sequence (inv : Inv (2 ^ k) s) : (s.cell (2 ^ k) s.head).sequence ≤ s.tail := by
  have ordered := inv.ordered
  rcases Nat.lt_or_ge s.head s.tail with some | none
  · by_cases writes : Held Call.producing s.calls s.head
    · have seq := (inv.writing s.head writes).2.2
      omega
    · have seq := (inv.stored s.head (Nat.le_refl _) some writes).1
      omega
  · have same : s.head = s.tail := by omega
    rw [same]
    exact inv.tail_sequence

/-- The cell of the tail is neither full nor still being read. -/
def Room (capacity : Nat) (s : State α) : Prop :=
  s.tail + 1 ≤ s.head + capacity ∧ ∀ pos, Held Call.consuming s.calls pos → s.tail + 1 ≤ pos + capacity

theorem Inv.tail_ready (inv : Inv (2 ^ k) s) (two : 2 ≤ 2 ^ k)
    (ready : (s.cell (2 ^ k) s.tail).sequence = s.tail) : Room (2 ^ k) s := by
  have bounded := inv.bounded
  have lap {pos : Nat} (last : s.tail = pos + 2 ^ k) : (s.cell (2 ^ k) pos).sequence = pos + 2 ^ k := by
    rw [← cell_lap s k pos,← last]
    exact ready
  constructor
  · by_contra full
    have last : s.tail = s.head + 2 ^ k := by omega
    have seq := lap last
    by_cases writes : Held Call.producing s.calls s.head
    · have own := (inv.writing s.head writes).2.2
      omega
    · have own := (inv.stored s.head (Nat.le_refl _) (by omega) writes).1
      omega
  · intro pos reads
    obtain ⟨_,within,own⟩ := inv.reading pos reads
    by_contra full
    have last : s.tail = pos + 2 ^ k := by omega
    have seq := lap last
    omega

theorem Inv.claimPush (inv : Inv (2 ^ k) s) (vacant : Room (2 ^ k) s) {i : Nat} {item : α}
    (found : s.calls[i]? = some ⟨.push item,.exchange s.tail⟩) :
    Inv (2 ^ k) {s.goto i ⟨.push item,.writeData s.tail⟩ with
      tail := s.tail + 1, pushed := s.pushed ++ [item]} := by
  have seq := (inv.facts i _ found).2 rfl
  obtain ⟨room,recycled⟩ := vacant
  have ordered := inv.ordered
  have writers (other : Nat) := Held.gain_iff Call.producing ⟨.push item,.writeData s.tail⟩
    found rfl rfl other
  have readers (other : Nat) := Held.keep_iff Call.consuming ⟨.push item,.writeData s.tail⟩
    found rfl other
  have grows (pos : Nat) (value : α) (written : s.pushed[pos]? = some value) :
      (s.pushed ++ [item])[pos]? = some value := get_grows written
  exact {
    tail := by simp [inv.tail]
    ordered := Nat.le_succ_of_le ordered
    bounded := room
    writing := fun pos held => by
      rcases (writers pos).mp held with rfl | kept
      · exact ⟨ordered,Nat.lt_succ_self _,seq⟩
      · obtain ⟨lower,upper,own⟩ := inv.writing pos kept
        exact ⟨lower,Nat.lt_succ_of_lt upper,own⟩
    reading := fun pos held => by
      obtain ⟨lower,_,own⟩ := inv.reading pos ((readers pos).mp held)
      exact ⟨lower,recycled pos ((readers pos).mp held),own⟩
    stored := fun pos lower upper unheld => by
      have different : pos ≠ s.tail := fun same => unheld ((writers pos).mpr (.inl same))
      have unwritten : ¬ Held Call.producing s.calls pos := fun kept => unheld ((writers pos).mpr (.inr kept))
      change pos < s.tail + 1 at upper
      obtain ⟨own,data⟩ := inv.stored pos lower (by omega) unwritten
      exact ⟨own,grows pos _ data⟩
    free := fun pos lower upper unheld => by
      change s.tail + 1 ≤ pos + 2 ^ k at upper
      exact inv.free pos lower (by omega) (mt (readers pos).mpr unheld)
    unused := fun pos lower upper => inv.unused pos (Nat.le_of_succ_le lower) upper
    facts := by
      intro j call present
      rcases get_set present with ⟨rfl,rfl⟩ | ⟨other,kept⟩
      · change (s.pushed ++ [item])[s.tail]? = some item
        rw [inv.tail]
        exact List.getElem?_concat_length
      · refine (inv.facts j call kept).frame (Nat.le_succ _) (Nat.le_refl _) grows ?_ ?_ (fun _ _ => rfl)
        · intro same
          exact absurd same (Nat.succ_ne_self _)
        · intro _ inside held
          rcases (writers _).mp held with same | before
          · exact absurd same (Nat.ne_of_lt inside)
          · exact before
    pushes := by
      refine inv.pushes.set found (fun pos owns => Or.inr (fun j call kept shares => ?_))
      have same : s.tail = pos := Option.some.inj owns
      exact Nat.ne_of_lt (inv.pushTicket_lt kept shares) same.symm
    pops := inv.pops.set found (fun _ owns => .inl owns) }

theorem Inv.claimPop (inv : Inv (2 ^ k) s) {i : Nat} (found : s.calls[i]? = some ⟨.pop,.exchange s.head⟩) :
    Inv (2 ^ k) {s.goto i ⟨.pop,.readData s.head⟩ with head := s.head + 1} := by
  obtain ⟨inside,unwritten⟩ := (inv.facts i _ found).2 rfl
  obtain ⟨seq,data⟩ := inv.stored s.head (Nat.le_refl _) inside unwritten
  have bounded := inv.bounded
  have writers (other : Nat) := Held.keep_iff Call.producing ⟨.pop,.readData s.head⟩
    found rfl other
  have readers (other : Nat) := Held.gain_iff Call.consuming ⟨.pop,.readData s.head⟩
    found rfl rfl other
  exact {
    tail := inv.tail
    ordered := inside
    bounded := by
      change s.tail ≤ s.head + 1 + 2 ^ k
      omega
    writing := fun pos held => by
      have kept := (writers pos).mp held
      obtain ⟨lower,upper,own⟩ := inv.writing pos kept
      have different : pos ≠ s.head := by
        intro same
        subst same
        exact unwritten kept
      exact ⟨by change s.head + 1 ≤ pos; omega,upper,own⟩
    reading := fun pos held => by
      rcases (readers pos).mp held with rfl | kept
      · exact ⟨Nat.lt_succ_self _,bounded,seq⟩
      · obtain ⟨lower,upper,own⟩ := inv.reading pos kept
        exact ⟨Nat.lt_succ_of_lt lower,upper,own⟩
    stored := fun pos lower upper unheld =>
      inv.stored pos (Nat.le_of_succ_le lower) upper (mt (writers pos).mpr unheld)
    free := fun pos lower upper unheld => by
      have different : pos ≠ s.head := fun same => unheld ((readers pos).mpr (.inl same))
      have unread : ¬ Held Call.consuming s.calls pos := fun kept => unheld ((readers pos).mpr (.inr kept))
      change pos < s.head + 1 at lower
      exact inv.free pos (by omega) upper unread
    unused := inv.unused
    facts := by
      intro j call present
      rcases get_set present with ⟨rfl,rfl⟩ | ⟨other,kept⟩
      · exact data
      · refine (inv.facts j call kept).frame (Nat.le_refl _) (Nat.le_succ _) (fun _ _ same => same)
          (fun _ same => same) ?_ (fun _ _ => rfl)
        intro same
        exact absurd same (Nat.succ_ne_self _)
    pushes := inv.pushes.set found (fun _ owns => .inl owns)
    pops := by
      refine inv.pops.set found (fun pos owns => Or.inr (fun j call kept shares => ?_))
      have same : s.head = pos := Option.some.inj owns
      exact Nat.ne_of_lt (inv.popTicket_lt kept shares) same.symm }

theorem compared_tickets (operation : Operation α) (difference : Int) (pos : Nat) :
    (⟨operation,compared difference pos⟩ : Call α).pushTicket = none ∧
      (⟨operation,compared difference pos⟩ : Call α).popTicket = none := by
  unfold compared
  split_ifs <;> cases operation <;> exact ⟨rfl,rfl⟩

theorem Inv.begin {capacity : Nat} (inv : Inv capacity s) (operation : Operation α) :
    Inv capacity {s with calls := s.calls ++ [⟨operation,.loadPosition⟩]} := by
  have writers (pos : Nat) : Held Call.producing (s.calls ++ [⟨operation,.loadPosition⟩]) pos ↔
      Held Call.producing s.calls pos := Held.append_iff (by cases operation <;> rfl) pos
  have readers (pos : Nat) : Held Call.consuming (s.calls ++ [⟨operation,.loadPosition⟩]) pos ↔
      Held Call.consuming s.calls pos := Held.append_iff (by cases operation <;> rfl) pos
  refine inv.recall writers readers (fun frame => Every.append (inv.facts.imp fun _ call _ known => frame call known) ?_)
    (inv.pushes.append (by cases operation <;> rfl)) (inv.pops.append (by cases operation <;> rfl))
  cases operation <;> trivial

/-- Every position below the tail has been won by a `Push` and every position
below the head by a `Pop`. -/
def Won (s : State α) : Prop :=
  (∀ pos, pos < s.tail → Held Call.pushTicket s.calls pos) ∧
    ∀ pos, pos < s.head → Held Call.popTicket s.calls pos

theorem Won.set (won : Won s) {i : Nat} {old : Call α} (next : Call α) (found : s.calls[i]? = some old)
    (pushes : old.pushTicket = none ∨ next.pushTicket = old.pushTicket)
    (pops : old.popTicket = none ∨ next.popTicket = old.popTicket) :
    (∀ pos, pos < s.tail → Held Call.pushTicket (s.calls.set i next) pos) ∧
      ∀ pos, pos < s.head → Held Call.popTicket (s.calls.set i next) pos :=
  ⟨fun pos below => (won.1 pos below).set found pushes,fun pos below => (won.2 pos below).set found pops⟩

/-- No position leaves the signed range in a run of fewer than `2 ^ (w - 1)` pushes,
so no addition wraps. -/
theorem Inv.no_wrap (inv : Inv (2 ^ k) s) (fits : k < w) (few : s.pushed.length < 2 ^ (w - 1)) {pos : Nat}
    (below : pos ≤ s.tail) : (pos + 1) % 2 ^ w = pos + 1 ∧
      (pos < s.tail → (pos + 2 ^ k) % 2 ^ w = pos + 2 ^ k) := by
  have double := Nat.two_pow_pred_mul_two (by omega : 0 < w)
  have lap : 2 ^ k ≤ 2 ^ (w - 1) := Nat.pow_le_pow_right (by omega) (by omega)
  have tail := inv.tail
  have size := Nat.two_pow_pos k
  exact ⟨Nat.mod_eq_of_lt (by omega),fun _ => Nat.mod_eq_of_lt (by omega)⟩

theorem Inv.moves_room (inv : Inv (2 ^ k) s) (fits : k < w) (few : s.pushed.length < 2 ^ (w - 1))
    (vacant : ∀ (i : Nat) (item : α), s.calls[i]? = some ⟨.push item,.exchange s.tail⟩ → Room (2 ^ k) s)
    (moves : Moves moved w (2 ^ k) s t) : Inv (2 ^ k) t := by
  have small : s.tail + 1 < 2 ^ w := by
    have wraps := (inv.no_wrap fits few (Nat.le_refl _)).1
    exact wraps ▸ Nat.mod_lt _ (Nat.two_pow_pos w)
  have ordered := inv.ordered
  cases moves with
  | invoke operation => exact inv.begin operation
  | loadTail i item point found loads =>
    refine inv.goto found ?_ ⟨rfl,rfl⟩ (Nat.le_refl _)
    rcases loads with rfl | ⟨pos,rfl⟩ <;> exact ⟨rfl,rfl⟩
  | comparePush i item pos found =>
    have below : pos ≤ s.tail := inv.facts i _ found
    refine inv.goto found ⟨rfl,rfl⟩ (compared_tickets _ _ _) ?_
    unfold compared
    split_ifs with zero
    · refine ⟨below,?_⟩
      intro same
      subst same
      exact (diff_zero (Nat.lt_of_le_of_lt inv.tail_sequence (by omega)) (by omega)).mp zero
    · trivial
    · trivial
  | claimPush i item found =>
    rw [(inv.no_wrap fits few (Nat.le_refl _)).1]
    exact inv.claimPush (vacant i item found) found
  | writeData i item pos found =>
    refine inv.writeCell found rfl rfl rfl rfl rfl ⟨inv.facts i _ found,?_⟩
    rw [cell_setCell_same rfl]
  | storePushed i item pos found =>
    have below := (inv.writing pos ⟨i,_,found,rfl⟩).2.1
    rw [(inv.no_wrap fits few (Nat.le_of_lt below)).1]
    exact inv.storePushed found
  | loadHead i point found loads =>
    refine inv.goto found ?_ ⟨rfl,rfl⟩ (Nat.le_refl _)
    rcases loads with rfl | ⟨pos,rfl⟩ <;> exact ⟨rfl,rfl⟩
  | comparePop i pos found =>
    have below : pos ≤ s.head := inv.facts i _ found
    rw [(inv.no_wrap fits few (Nat.le_trans below ordered)).1]
    refine inv.goto found ⟨rfl,rfl⟩ (compared_tickets _ _ _) ?_
    unfold compared
    split_ifs with zero
    · refine ⟨below,?_⟩
      intro same
      subst same
      exact inv.head_ready ((diff_zero (Nat.lt_of_le_of_lt inv.head_sequence (by omega)) (by omega)).mp zero)
    · trivial
    · trivial
  | claimPop i found =>
    rw [(inv.no_wrap fits few ordered).1]
    exact inv.claimPop found
  | readData i pos found =>
    exact inv.writeCell found rfl rfl rfl rfl rfl (inv.facts i _ found)
  | storePopped i pos item found =>
    have below := (inv.reading pos ⟨i,_,found,rfl⟩).1
    have inside : pos ≤ s.tail := by omega
    rw [(inv.no_wrap fits few inside).2 (by omega)]
    exact inv.storePopped found

theorem Inv.moves (inv : Inv (2 ^ k) s) (two : 1 ≤ k) (fits : k < w) (few : s.pushed.length < 2 ^ (w - 1))
    (moves : Moves moved w (2 ^ k) s t) : Inv (2 ^ k) t := by
  have pair := Nat.le_self_pow (by omega : k ≠ 0) 2
  exact inv.moves_room fits few (fun i item found => inv.tail_ready pair ((inv.facts i _ found).2 rfl)) moves

theorem Won.moves (won : Won s) (inv : Inv (2 ^ k) s) (fits : k < w) (few : s.pushed.length < 2 ^ (w - 1))
    (moves : Moves moved w (2 ^ k) s t) : Won t := by
  cases moves with
  | invoke operation =>
    exact ⟨fun pos below => (won.1 pos below).append _,fun pos below => (won.2 pos below).append _⟩
  | claimPush i item found =>
    rw [(inv.no_wrap fits few (Nat.le_refl _)).1]
    obtain ⟨tails,heads⟩ := won.set (⟨.push item,.writeData s.tail⟩ : Call α) found (.inl rfl) (.inl rfl)
    refine ⟨fun pos below => ?_,heads⟩
    rcases Nat.lt_succ_iff_lt_or_eq.mp below with before | rfl
    · exact tails pos before
    · exact ⟨i,_,get_self found,rfl⟩
  | claimPop i found =>
    rw [(inv.no_wrap fits few inv.ordered).1]
    obtain ⟨tails,heads⟩ := won.set (⟨.pop,.readData s.head⟩ : Call α) found (.inl rfl) (.inl rfl)
    refine ⟨tails,fun pos below => ?_⟩
    rcases Nat.lt_succ_iff_lt_or_eq.mp below with before | rfl
    · exact heads pos before
    · exact ⟨i,_,get_self found,rfl⟩
  | loadTail i item point found loads | loadHead i point found loads =>
    refine won.set _ found (.inl ?_) (.inl ?_) <;> rcases loads with rfl | ⟨pos,rfl⟩ <;> rfl
  | comparePush i item pos found | comparePop i pos found =>
    exact won.set _ found (.inl rfl) (.inl rfl)
  | writeData i item pos found =>
    exact won.set (⟨.push item,.storePushed pos⟩ : Call α) found (.inr rfl) (.inr rfl)
  | storePushed i item pos found =>
    exact won.set (⟨.push item,.pushed pos⟩ : Call α) found (.inr rfl) (.inr rfl)
  | readData i pos found =>
    exact won.set ⟨.pop,.storePopped pos (s.cell (2 ^ k) pos).data⟩ found (.inr rfl) (.inr rfl)
  | storePopped i pos item found =>
    exact won.set ⟨.pop,.popped pos item⟩ found (.inr rfl) (.inr rfl)

theorem inv_init (k : Nat) (data : Nat → α) : Inv (2 ^ k) (init data) ∧ Won (init data) := by
  have unheld (key : Call α → Option Nat) (pos : Nat) : ¬ Held key [] pos := by
    intro given
    obtain ⟨j,call,found,_⟩ := given
    simp at found
  refine ⟨?_,by simp [init],by simp [init]⟩
  exact {
    tail := rfl
    ordered := Nat.le_refl _
    bounded := Nat.zero_le _
    writing := fun pos held => absurd held (unheld _ pos)
    reading := fun pos held => absurd held (unheld _ pos)
    stored := fun pos above below => absurd below (Nat.not_lt_zero _)
    free := fun pos below => absurd below (Nat.not_lt_zero _)
    unused := fun pos _ below => by
      change slot (2 ^ k) pos = pos
      rw [slot_eq,Nat.mod_eq_of_lt below]
    facts := Every.nil _
    pushes := Exclusive.nil _
    pops := Exclusive.nil _ }

theorem Moves.pushed_grows (moves : Moves moved w (2 ^ k) s t) : s.pushed.length ≤ t.pushed.length := by
  cases moves with
  | claimPush => simp
  | _ => exact Nat.le_refl _

theorem inv_run {data : Nat → α} {labels : List (Label α)} (two : 1 ≤ k) (fits : k < w)
    (reached : run (step moved w (2 ^ k)) (init data) labels = some s)
    (few : s.pushed.length < 2 ^ (w - 1)) : Inv (2 ^ k) s ∧ Won s := by
  refine run_invariant (fun state => state.pushed.length < 2 ^ (w - 1) → Inv (2 ^ k) state ∧ Won state)
    ?_ (fun _ => inv_init k data) reached few
  intro before label after holds taken small
  have moves := step_moves moved w (2 ^ k) before after label taken
  have fewer := Nat.lt_of_le_of_lt moves.pushed_grows small
  obtain ⟨inv,won⟩ := holds fewer
  exact ⟨inv.moves two fits fewer moves,won.moves inv fits fewer moves⟩

/-- The ticket discipline. No two calls are between exchange and store on one
cell; the tail stays within one lap of the head; every `Push` that won a position
has its item there, every position below the tail was won by exactly one `Push`
and every position below the head by exactly one `Pop`, and a `Pop` returns the
item of the `Push` that won its own position. -/
theorem mpmc_tickets {data : Nat → α} (two : 1 ≤ k) (fits : k < w) (labels : List (Label α))
    (reached : run (step moved w (2 ^ k)) (init data) labels = some s)
    (few : s.pushed.length < 2 ^ (w - 1)) :
    (∀ (i j : Nat) (a b : Call α) (first second : Nat), s.calls[i]? = some a → s.calls[j]? = some b →
      i ≠ j → a.busy = some first → b.busy = some second → slot (2 ^ k) first ≠ slot (2 ^ k) second) ∧
    s.head ≤ s.tail ∧ s.tail ≤ s.head + 2 ^ k ∧
    (∀ pos, pos < s.tail ↔ Held Call.pushTicket s.calls pos) ∧
    (∀ pos, pos < s.head ↔ Held Call.popTicket s.calls pos) ∧
    Exclusive Call.pushTicket s.calls ∧ Exclusive Call.popTicket s.calls ∧
    (∀ (j : Nat) (call : Call α) (pos : Nat), s.calls[j]? = some call → call.pushTicket = some pos →
      ∃ item, call.operation = .push item ∧ s.pushed[pos]? = some item) ∧
    (∀ (j pos : Nat) (item : α), s.calls[j]? = some ⟨.pop,.popped pos item⟩ →
      ∃ (i : Nat) (call : Call α), s.calls[i]? = some call ∧ call.pushTicket = some pos ∧
        call.operation = .push item) := by
  obtain ⟨inv,won⟩ := inv_run two fits reached few
  refine ⟨fun i j a b first second foundFirst foundSecond other busyFirst busySecond =>
      inv.busy_apart foundFirst foundSecond busyFirst busySecond other,
    inv.ordered,inv.bounded,fun pos => ⟨won.1 pos,?_⟩,fun pos => ⟨won.2 pos,?_⟩,inv.pushes,inv.pops,
    fun j call pos found owns => (inv.facts j call found).pushTicket_item owns,?_⟩
  · intro given
    obtain ⟨j,call,found,owns⟩ := given
    exact inv.pushTicket_lt found owns
  · intro given
    obtain ⟨j,call,found,owns⟩ := given
    exact inv.popTicket_lt found owns
  · intro j pos item found
    obtain ⟨below,written⟩ := inv.facts j _ found
    obtain ⟨i,call,present,owns⟩ := won.1 pos (Nat.lt_of_lt_of_le below inv.ordered)
    obtain ⟨own,pushes,same⟩ := (inv.facts i call present).pushTicket_item owns
    refine ⟨i,call,present,owns,?_⟩
    rw [pushes,Option.some.inj (same.symm.trans written)]

/-- Two cells, one item pushed and popped between two failed exchanges. -/
theorem mpmc_tickets_two_cells :
    ∃ s : State Nat, run (step id 8 (2 ^ 1)) (init fun _ => 0)
      [.invoke (.push 5),.access 0,.access 0,.fail 0,.access 0,.access 0,.access 0,.access 0,
        .invoke .pop,.access 1,.access 1,.fail 1,.access 1,.access 1,.access 1,.access 1] = some s ∧
      (s.head,s.tail,s.pushed) = (1,1,[5]) ∧ s.head ≤ s.tail ∧ s.tail ≤ s.head + 2 ^ 1 := by
  obtain ⟨s,reached,positions⟩ := Option.map_eq_some_iff.mp (show (run (step id 8 (2 ^ 1)) (init fun _ => 0)
    [.invoke (.push 5),.access 0,.access 0,.fail 0,.access 0,.access 0,.access 0,.access 0,
      .invoke .pop,.access 1,.access 1,.fail 1,.access 1,.access 1,.access 1,.access 1]).map
      (fun s => (s.head,s.tail,s.pushed)) = some (1,1,[5]) from rfl)
  have few : s.pushed.length < 2 ^ (8 - 1) := by
    have pushed : s.pushed = [5] := congrArg (fun p => p.2.2) positions
    rw [pushed]
    decide
  obtain ⟨_,ordered,bounded,_⟩ := mpmc_tickets (by decide) (by decide) _ reached few
  exact ⟨s,reached,positions,ordered,bounded⟩

end Ezthread.MpmcQueue
