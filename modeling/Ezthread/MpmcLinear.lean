import Ezthread.Fifo
import Ezthread.MpmcSerial

/-! `MPMCQueue` against a FIFO queue, for calls that overlap in any way. A call that
succeeds takes effect at its exchange; in the order of these exchanges the items are
queued and served, and the exchange of a call lies between its start and its return. -/
namespace Ezthread.MpmcQueue
open Transition Activation Fifo
open Lifo (Event)

variable {α : Type*} {moved : α → α} {w k i : Nat} {s t : State α} {old next : Call α}

/-- The exchange that an access makes, if it succeeds. -/
def State.exchange (s : State α) : Label α → Option (Event Nat α)
  | .access i =>
      match s.calls[i]? with
      | some ⟨.push item,.exchange pos⟩ => if s.tail = pos then some (.push i item) else none
      | some ⟨.pop,.exchange pos⟩ => if s.head = pos then (s.pushed[pos]?).map (.pop i) else none
      | _ => none
  | _ => none

def exchanges (moved : α → α) (w capacity : Nat) : State α → List (Label α) → List (Event Nat α)
  | _, [] => []
  | s, label :: rest =>
      match step moved w capacity s label with
      | some t => (s.exchange label).toList ++ exchanges moved w capacity t rest
      | none => []

/-- What a call has done to the queue by where it stands. -/
def Call.effects (pushed : List α) (j : Nat) : Call α → List (Event Nat α)
  | ⟨.push item,.writeData _⟩ | ⟨.push item,.storePushed _⟩ | ⟨.push item,.pushed _⟩ => [.push j item]
  | ⟨.pop,.readData pos⟩ | ⟨.pop,.storePopped pos _⟩ | ⟨.pop,.popped pos _⟩ => ((pushed[pos]?).map (.pop j)).toList
  | _ => []

/-- What a call that has returned tells its caller that it did. -/
def Outcome.effects (j : Nat) : Operation α → Outcome α → List (Event Nat α)
  | .push item, .pushed true => [.push j item]
  | .pop, .popped (some item) => [.pop j item]
  | _, _ => []

structure Linear (s : State α) (history : List (Event Nat α)) : Prop where
  leaves : Leaves history s.items
  own : Every (fun j call => ofCaller history j = call.effects s.pushed j) s.calls
  callers : ∀ event ∈ history, event.caller < s.calls.length

theorem exchanges_append {capacity : Nat} {u : State α} {first second : List (Label α)}
    (reached : run (step moved w capacity) s first = some u) :
    exchanges moved w capacity s (first ++ second) =
      exchanges moved w capacity s first ++ exchanges moved w capacity u second := by
  induction first generalizing s with
  | nil =>
    cases reached
    rfl
  | cons label rest ih =>
    obtain ⟨next,taken,remaining⟩ := run_cons_some reached
    simp only [List.cons_append,exchanges,taken,ih remaining,List.append_assoc]

/-- A step that is no exchange moves a call between points at which it has done the same. -/
theorem Linear.keeps {history : List (Event Nat α)} {label : Label α} (linear : Linear s history)
    (found : s.calls[i]? = some old) (quiet : s.exchange label = none)
    (calls : t.calls = s.calls.set i next) (head : t.head = s.head) (pushed : t.pushed = s.pushed)
    (same : next.effects s.pushed i = old.effects s.pushed i) :
    Linear t (history ++ (s.exchange label).toList) := by
  rw [quiet,Option.toList_none,List.append_nil]
  refine ⟨?_,?_,?_⟩
  · rw [State.items,head,pushed]
    exact linear.leaves
  · rw [calls,pushed]
    exact linear.own.set ((linear.own i old found).trans same.symm)
  · rw [calls,List.length_set]
    exact linear.callers

theorem effects_grow {capacity : Nat} {call : Call α} (fact : Fact capacity s call) (item : α) (j : Nat) :
    call.effects (s.pushed ++ [item]) j = call.effects s.pushed j := by
  obtain ⟨operation,point⟩ := call
  have grows {pos : Nat} {value : α} (written : s.pushed[pos]? = some value) : (s.pushed ++ [item])[pos]? = s.pushed[pos]? := by
    rw [written]
    exact get_grows written
  cases operation with
  | push value => cases point <;> rfl
  | pop =>
    cases point with
    | readData pos | storePopped pos value => simp only [Call.effects,grows fact]
    | popped pos value => simp only [Call.effects,grows fact.2]
    | _ => rfl

/-- An exchange is the first thing its call has done, and what the others did stays. -/
theorem Linear.exchanged {history : List (Event Nat α)} {event : Event Nat α} (linear : Linear s history)
    (found : s.calls[event.caller]? = some old) (calls : t.calls = s.calls.set event.caller next)
    (first : old.effects s.pushed event.caller = []) (done : next.effects t.pushed event.caller = [event])
    (others : ∀ (j : Nat) (call : Call α), s.calls[j]? = some call → call.effects t.pushed j = call.effects s.pushed j)
    (leaves : Leaves (history ++ [event]) t.items) : Linear t (history ++ [event]) := by
  refine ⟨leaves,?_,?_⟩
  · rw [calls]
    intro j call present
    rcases get_set present with ⟨rfl,rfl⟩ | ⟨other,kept⟩
    · rw [ofCaller_own,linear.own _ old found,first,done]
      rfl
    · rw [ofCaller_other other,linear.own j call kept,others j call kept]
  · rw [calls,List.length_set]
    intro before member
    rcases List.mem_append.mp member with earlier | last
    · exact linear.callers before earlier
    · rw [List.mem_singleton.mp last]
      exact get_lt found

theorem Linear.pushes {history : List (Event Nat α)} {capacity : Nat} {item : α} (linear : Linear s history)
    (inv : Inv capacity s) (found : s.calls[i]? = some ⟨.push item,.exchange s.tail⟩)
    (calls : t.calls = s.calls.set i ⟨.push item,.writeData s.tail⟩) (head : t.head = s.head)
    (pushed : t.pushed = s.pushed ++ [item]) : Linear t (history ++ [.push i item]) := by
  have items : t.items = s.items ++ [item] := by
    rw [State.items,State.items,head,pushed,List.drop_append_of_le_length (by rw [← inv.tail]; exact inv.ordered)]
  refine linear.exchanged found calls rfl rfl (fun j call kept => ?_) ?_
  · rw [pushed]
    exact effects_grow (inv.facts j call kept) item j
  · rw [items]
    exact .push i item linear.leaves

theorem Linear.pops {history : List (Event Nat α)} {value : α} (linear : Linear s history)
    (found : s.calls[i]? = some ⟨.pop,.exchange s.head⟩) (first : s.pushed[s.head]? = some value)
    (calls : t.calls = s.calls.set i ⟨.pop,.readData s.head⟩) (head : t.head = s.head + 1)
    (pushed : t.pushed = s.pushed) : Linear t (history ++ [.pop i value]) := by
  have items : s.items = value :: t.items := by
    obtain ⟨inside,same⟩ := List.getElem?_eq_some_iff.mp first
    rw [State.items,State.items,head,pushed,List.drop_eq_getElem_cons inside,same]
  have leaves := linear.leaves
  rw [items] at leaves
  refine linear.exchanged found calls rfl ?_ (fun j call _ => by rw [pushed]) (.pop i value leaves)
  simp [Call.effects,pushed,first,Event.caller]

theorem compared_effects (pushed : List α) (operation : Operation α) (difference : Int) (pos j : Nat) :
    (⟨operation,compared difference pos⟩ : Call α).effects pushed j = [] := by
  unfold compared
  split_ifs <;> cases operation <;> rfl

theorem Linear.access {history : List (Event Nat α)} (linear : Linear s history) (inv : Inv (2 ^ k) s) (fits : k < w)
    (few : s.pushed.length < 2 ^ (w - 1)) (found : s.calls[i]? = some old)
    (accessed : advance moved w (2 ^ k) s i old = some t) :
    Linear t (history ++ (s.exchange (.access i)).toList) := by
  unfold advance at accessed
  split at accessed
  next item =>
    cases accessed
    exact linear.keeps found (by simp [State.exchange,found]) rfl rfl rfl rfl
  next item pos =>
    cases accessed
    exact linear.keeps found (by simp [State.exchange,found]) rfl rfl rfl (compared_effects s.pushed _ _ _ i)
  next item pos =>
    split at accessed
    next same =>
      subst same
      cases accessed
      have wins : s.exchange (.access i) = some (.push i item) := by simp [State.exchange,found]
      rw [wins]
      exact linear.pushes inv found rfl rfl rfl
    next other =>
      cases accessed
      exact linear.keeps found (by simp [State.exchange,found,other]) rfl rfl rfl rfl
  next item pos =>
    cases accessed
    exact linear.keeps found (by simp [State.exchange,found]) rfl rfl rfl rfl
  next item pos =>
    cases accessed
    exact linear.keeps found (by simp [State.exchange,found]) rfl rfl rfl rfl
  next =>
    cases accessed
    exact linear.keeps found (by simp [State.exchange,found]) rfl rfl rfl rfl
  next pos =>
    cases accessed
    exact linear.keeps found (by simp [State.exchange,found]) rfl rfl rfl (compared_effects s.pushed _ _ _ i)
  next pos =>
    split at accessed
    next same =>
      subst same
      cases accessed
      obtain ⟨inside,_⟩ := (inv.facts i _ found).2 rfl
      obtain ⟨value,first⟩ : ∃ value, s.pushed[s.head]? = some value :=
        ⟨_,List.getElem?_eq_getElem (inv.tail ▸ inside)⟩
      have wins : s.exchange (.access i) = some (.pop i value) := by simp [State.exchange,found,first]
      rw [wins]
      exact linear.pops found first rfl (inv.no_wrap fits few inv.ordered).1 rfl
    next other =>
      cases accessed
      exact linear.keeps found (by simp [State.exchange,found,other]) rfl rfl rfl rfl
  next pos =>
    cases accessed
    exact linear.keeps found (by simp [State.exchange,found]) rfl rfl rfl rfl
  next pos item =>
    cases accessed
    exact linear.keeps found (by simp [State.exchange,found]) rfl rfl rfl rfl
  next => contradiction

theorem Linear.step {history : List (Event Nat α)} (linear : Linear s history) (inv : Inv (2 ^ k) s) (fits : k < w)
    (few : s.pushed.length < 2 ^ (w - 1)) (label : Label α) (taken : step moved w (2 ^ k) s label = some t) :
    Linear t (history ++ (s.exchange label).toList) := by
  cases label with
  | invoke operation =>
    cases taken
    have same : history ++ (s.exchange (.invoke operation)).toList = history := List.append_nil _
    rw [same]
    refine ⟨linear.leaves,linear.own.append ?_,fun event member => ?_⟩
    · have none : ofCaller history s.calls.length = [] :=
        ofCaller_none fun event member => Nat.ne_of_lt (linear.callers event member)
      cases operation <;> exact none
    · rw [List.length_append]
      exact Nat.lt_add_right _ (linear.callers event member)
  | access i =>
    obtain ⟨call,found,accessed⟩ := Option.bind_eq_some_iff.mp taken
    exact linear.access inv fits few found accessed
  | fail i =>
    simp only [MpmcQueue.step] at taken
    split at taken
    next item pos found =>
      cases taken
      exact linear.keeps found rfl rfl rfl rfl rfl
    next pos found =>
      cases taken
      exact linear.keeps found rfl rfl rfl rfl rfl
    next => contradiction

theorem exchange_running {label : Label α} {event : Event Nat α} (exchanged : s.exchange label = some event) :
    ∃ call, s.calls[event.caller]? = some call ∧ call.outcome = none := by
  cases label with
  | invoke | fail => contradiction
  | access i =>
    simp only [State.exchange] at exchanged
    split at exchanged
    next item pos found =>
      split at exchanged
      next => cases exchanged; exact ⟨_,found,rfl⟩
      next => contradiction
    next pos found =>
      split at exchanged
      next =>
        obtain ⟨value,_,rfl⟩ := Option.map_eq_some_iff.mp exchanged
        exact ⟨_,found,rfl⟩
      next => contradiction
    next => contradiction

/-- A call that has returned stays as it is. -/
theorem Moves.returned {capacity j : Nat} {call : Call α} {outcome : Outcome α} (moves : Moves moved w capacity s t)
    (found : s.calls[j]? = some call) (returned : call.outcome = some outcome) : t.calls[j]? = some call := by
  have kept {i : Nat} {running next : Call α} (present : s.calls[i]? = some running) (still : running.outcome = none) :
      (s.calls.set i next)[j]? = some call := by
    have apart : i ≠ j := by
      rintro rfl
      cases found.symm.trans present
      rw [still] at returned
      contradiction
    rw [List.getElem?_set_ne apart]
    exact found
  cases moves with
  | invoke operation => exact get_grows found
  | loadTail i item point present loads | loadHead i point present loads =>
    rcases loads with rfl | ⟨pos,rfl⟩ <;> exact kept present rfl
  | comparePush i item pos present | claimPush i item present | writeData i item pos present
  | storePushed i item pos present | comparePop i pos present | claimPop i present | readData i pos present
  | storePopped i pos item present => exact kept present rfl

theorem exchanges_running {capacity : Nat} {labels : List (Label α)} {event : Event Nat α}
    (member : event ∈ exchanges moved w capacity s labels) {call : Call α} (found : s.calls[event.caller]? = some call) :
    call.outcome = none := by
  induction labels generalizing s with
  | nil => contradiction
  | cons label rest ih =>
    simp only [exchanges] at member
    split at member
    next next taken =>
      rcases List.mem_append.mp member with now | later
      · obtain ⟨running,present,still⟩ := exchange_running (Option.mem_toList.mp now)
        cases found.symm.trans present
        exact still
      · cases outcome : call.outcome with
        | none => rfl
        | some value =>
          have stays := (step_moves moved w capacity s next label taken).returned found outcome
          exact outcome.symm.trans (ih later stays)
    next => contradiction

theorem linear_run {data : Nat → α} {labels : List (Label α)} (two : 1 ≤ k) (fits : k < w)
    (reached : run (step moved w (2 ^ k)) (init data) labels = some s) (few : s.pushed.length < 2 ^ (w - 1)) :
    Linear s (exchanges moved w (2 ^ k) (init data) labels) := by
  have initial : Linear (init data) [] := ⟨.nil,Every.nil _,fun _ member => absurd member List.not_mem_nil⟩
  have whole := run_history (fun state past => run (step moved w (2 ^ k)) (init data) past = some state ∧
      (state.pushed.length < 2 ^ (w - 1) → Linear state (exchanges moved w (2 ^ k) (init data) past)))
    (fun state past label next known taken => by
      obtain ⟨before,linear⟩ := known
      refine ⟨run_trans before (run_step taken rfl),fun short => ?_⟩
      have fewer := Nat.lt_of_le_of_lt (step_moves moved w (2 ^ k) state next label taken).pushed_grows short
      have after := (linear fewer).step (inv_run two fits before fewer).1 fits fewer label taken
      rw [exchanges_append before]
      simpa only [exchanges,taken,List.append_nil] using after)
    [] ⟨rfl,fun _ => initial⟩ reached
  exact whole.2 few

theorem effects_returned {capacity j : Nat} {call : Call α} {outcome : Outcome α} (fact : Fact capacity s call)
    (returned : call.outcome = some outcome) : call.effects s.pushed j = outcome.effects j call.operation := by
  obtain ⟨operation,point⟩ := call
  cases operation with
  | push item =>
    cases point with
    | pushed pos | refused =>
      cases returned
      rfl
    | _ => contradiction
  | pop =>
    cases point with
    | popped pos item =>
      cases returned
      simp [Call.effects,Outcome.effects,fact.2]
    | refused =>
      cases returned
      rfl
    | _ => contradiction

/-- Linearizability of the calls that succeed. In the order of the exchanges of a run
the items went through a FIFO queue, which holds what is left; a call that has
returned made the one exchange that it reports, or none if it was refused; and any
moment of the run parts the exchanges into those of calls that had begun and those of
calls that had not returned. -/
theorem queue_linearizable {data : Nat → α} {before after : List (Label α)} {u : State α} (two : 1 ≤ k) (fits : k < w)
    (reached : run (step moved w (2 ^ k)) (init data) before = some u)
    (onward : run (step moved w (2 ^ k)) u after = some s) (few : s.pushed.length < 2 ^ (w - 1)) :
    ∃ history, history = exchanges moved w (2 ^ k) (init data) (before ++ after) ∧
      Leaves history s.items ∧
      history.filterMap Event.pushed = history.filterMap Event.popped ++ s.items ∧
      (∀ (j : Nat) (call : Call α) (outcome : Outcome α), s.calls[j]? = some call → call.outcome = some outcome →
        ofCaller history j = outcome.effects j call.operation) ∧
      ∃ early late, history = early ++ late ∧ early = exchanges moved w (2 ^ k) (init data) before ∧
        (∀ event ∈ early, event.caller < u.calls.length) ∧
        ∀ event ∈ late, ∀ call, u.calls[event.caller]? = some call → call.outcome = none := by
  have whole := run_trans reached onward
  have linear := linear_run two fits whole few
  have grown : u.pushed.length ≤ s.pushed.length :=
    run_invariant (fun state => u.pushed.length ≤ state.pushed.length)
      (fun state label next longer taken =>
        Nat.le_trans longer (step_moves moved w (2 ^ k) state next label taken).pushed_grows) (Nat.le_refl _) onward
  refine ⟨_,rfl,linear.leaves,linear.leaves.in_order,fun j call outcome found returned => ?_,
    _,_,exchanges_append reached,rfl,?_,?_⟩
  · rw [linear.own j call found]
    exact effects_returned ((inv_run two fits whole few).1.facts j call found) returned
  · exact (linear_run two fits reached (Nat.lt_of_le_of_lt grown few)).callers
  · exact fun event member call found => exchanges_running member found

def overlap : List (Label Nat) :=
  [.invoke (.push 7),.invoke (.push 8),.access 0,.access 1,.access 0,.access 1,.access 1,.access 0]

def completion : List (Label Nat) :=
  [.access 1,.access 1,.access 0,.access 0,.access 0,.access 0,.invoke .pop,.access 2,.access 2,.access 2,.access 2,.access 2]

/-- Two pushes that overlap, the one called last winning the first position, and a pop. -/
theorem queue_linearizable_overlap :
    ∃ u s : State Nat, run (step id 8 (2 ^ 1)) (init fun _ => 0) overlap = some u ∧
      run (step id 8 (2 ^ 1)) u completion = some s ∧
      ∃ history : List (Event Nat Nat), Leaves history s.items ∧ ofCaller history 2 = [.pop 2 8] := by
  obtain ⟨s,whole,last⟩ := Option.map_eq_some_iff.mp (show
    (run (step id 8 (2 ^ 1)) (init fun _ => 0) (overlap ++ completion)).map (fun s => (s.pushed,s.calls[2]?)) =
      some ([8,7],some ⟨.pop,.popped 0 8⟩) from by rfl)
  obtain ⟨items,popped⟩ := Prod.mk.inj last
  rw [run_append] at whole
  obtain ⟨u,reached,onward⟩ := Option.bind_eq_some_iff.mp whole
  obtain ⟨history,_,leaves,_,returned,_⟩ :=
    queue_linearizable (by decide) (by decide) reached onward (by simp [items])
  exact ⟨u,s,reached,onward,history,leaves,returned 2 _ (.popped (some 8)) popped rfl⟩

end Ezthread.MpmcQueue
