import Chip8.Proofs.ControlFlow
import Chip8.Proofs.Operation

/-!
# The call stack is a bounded list

The call stack keeps its addresses in sixteen slots, with a count of those that are live.  A
slot keeps its address when a return gives it up, so two stacks with the same live addresses
may differ.  Nobody can tell: whatever is asked of a call stack, it answers as a list does
that takes sixteen addresses at most and gives back the latest first.

* `StackKind`, `StackKind.transcript` — something that takes the requests of a stack, and all
  that is seen of it while it does;
* `StackKind.Refines` — one kind of stack seen as another, with the same answers;
* `CallStack.kind_refines` — the call stack seen as the list of its live addresses;
* `CallStack.bounded_lifo` — the two side by side, over any sequence of requests.
-/

namespace Chip8

/-- What can be asked of a stack of return addresses. -/
inductive StackRequest where
  | push (a : Address)
  | pop
  | reset
  deriving DecidableEq, Repr

/-- Something that takes the requests of a stack, with what else can be asked of it: how deep
it is and whether it is empty. -/
structure StackKind (σ : Type) where
  perform : σ → StackRequest → σ × Reply
  depth : σ → Nat
  isEmpty : σ → Bool

/-- What is seen of a stack when it has taken a request. -/
structure StackView where
  reply : Reply
  depth : Nat
  isEmpty : Bool
  deriving DecidableEq, Repr

namespace StackKind

variable {σ τ : Type} (K : StackKind σ) (L : StackKind τ)

/-- The stack behind a sequence of requests. -/
def after (s : σ) (requests : List StackRequest) : σ :=
  requests.foldl (fun s request => (K.perform s request).1) s

/-- All that is seen of a stack over a sequence of requests. -/
def transcript (K : StackKind σ) (s : σ) : List StackRequest → List StackView
  | [] => []
  | request :: requests =>
      let (s', reply) := K.perform s request
      ⟨reply, K.depth s', K.isEmpty s'⟩ :: transcript K s' requests

/-- A stack of the one kind, seen as one of the other, takes each request in the same way. -/
structure Refines (view : σ → τ) : Prop where
  perform : ∀ s request,
    L.perform (view s) request = (view (K.perform s request).1, (K.perform s request).2)
  depth : ∀ s, L.depth (view s) = K.depth s
  isEmpty : ∀ s, L.isEmpty (view s) = K.isEmpty s

namespace Refines

variable {K L} {view : σ → τ}

/-- The view of the stack after some requests is the abstract stack after them. -/
theorem after (h : K.Refines L view) (s : σ) (requests : List StackRequest) :
    L.after (view s) requests = view (K.after s requests) := by
  unfold StackKind.after
  induction requests generalizing s with
  | nil => rfl
  | cons request requests ih =>
      rw [List.foldl_cons, List.foldl_cons, h.perform]
      exact ih _

/-- A refinement answers every sequence of requests alike. -/
theorem transcript (h : K.Refines L view) (s : σ) (requests : List StackRequest) :
    L.transcript (view s) requests = K.transcript s requests := by
  induction requests generalizing s with
  | nil => rfl
  | cons request requests ih =>
      simp only [StackKind.transcript, h.perform, h.depth, h.isEmpty, ih]

end Refines

end StackKind

/-- How a list of at most `capacity` addresses, the latest in front, takes a request. -/
def StackRequest.onList (capacity : Nat) : StackRequest → List Address → List Address × Reply
  | .push a, l => if l.length < capacity then (a :: l, .done) else (l, .refused .stackOverflow)
  | .pop, [] => ([], .refused .stackUnderflow)
  | .pop, a :: l => (l, .address a)
  | .reset, _ => ([], .done)

/-- A list of at most `capacity` addresses as a stack. -/
def boundedList (capacity : Nat) : StackKind (List Address) where
  perform l request := request.onList capacity l
  depth := List.length
  isEmpty := List.isEmpty

namespace CallStack

/-- How the call stack takes a request.  One that is refused leaves it as it is. -/
def perform (s : CallStack) : StackRequest → CallStack × Reply
  | .push a =>
      match s.push a with
      | .ok s' => (s', .done)
      | .error e => (s, .refused e)
  | .pop =>
      match s.pop with
      | .ok (a, s') => (s', .address a)
      | .error e => (s, .refused e)
  | .reset => (.empty, .done)

/-- The call stack as a stack. -/
def kind : StackKind CallStack where
  perform := perform
  depth := CallStack.depth
  isEmpty := CallStack.isEmpty

variable {s : CallStack}

/-- A call finds room as long as fewer than sixteen are under way. -/
theorem exists_push (a : Address) (h : s.toList.length < 16) :
    ∃ s', s.push a = .ok s' ∧ s'.toList = a :: s.toList := by
  rw [length_toList] at h
  have hpush : s.push a = .ok ⟨s.slots.set s.depth a, s.depth + 1, h⟩ := dif_pos h
  exact ⟨_, hpush, toList_push hpush⟩

/-- A full stack refuses a push. -/
theorem push_of_full (a : Address) (h : ¬ s.toList.length < 16) :
    s.push a = .error .stackOverflow := by
  rw [length_toList] at h
  exact dif_neg h

/-- An empty stack refuses a pop. -/
theorem pop_of_nil (h : s.toList = []) : s.pop = .error .stackUnderflow := by
  have hdepth : s.depth = 0 := by
    rw [← length_toList, h]
    rfl
  unfold pop
  split
  · rfl
  · omega

/-- A return gives back the latest address. -/
theorem exists_pop {a : Address} {l : List Address} (h : s.toList = a :: l) :
    ∃ s', s.pop = .ok (a, s') ∧ s'.toList = l := by
  cases hpop : s.pop with
  | error e =>
      have hdepth : s.depth = l.length + 1 := by
        rw [← length_toList, h]
        rfl
      unfold pop at hpop
      split at hpop
      · omega
      · cases hpop
  | ok result =>
      obtain ⟨b, s'⟩ := result
      have hlist := toList_pop hpop
      rw [h] at hlist
      cases hlist
      exact ⟨s', rfl, rfl⟩

/-- The call stack takes a request as the list of its live addresses does. -/
theorem onList_toList (s : CallStack) (request : StackRequest) :
    request.onList 16 s.toList = ((s.perform request).1.toList, (s.perform request).2) := by
  cases request with
  | push a =>
      by_cases hroom : s.toList.length < 16
      · obtain ⟨s', hpush, hlist⟩ := exists_push a hroom
        simp only [StackRequest.onList, perform, hpush, hlist, if_pos hroom]
      · simp only [StackRequest.onList, perform, push_of_full a hroom, if_neg hroom]
  | pop =>
      cases hlist : s.toList with
      | nil => simp only [StackRequest.onList, perform, pop_of_nil hlist, hlist]
      | cons a l =>
          obtain ⟨s', hpop, hrest⟩ := exists_pop hlist
          simp only [StackRequest.onList, perform, hpop, hrest]
  | reset => exact congrArg (·, Reply.done) toList_empty.symm

/-- A refused request leaves the stack as it was. -/
theorem perform_of_refused {request : StackRequest} {e : MachineError}
    (h : (s.perform request).2 = .refused e) : (s.perform request).1 = s := by
  cases request with
  | push a =>
      simp only [perform] at h ⊢
      split at h
      · cases h
      · rfl
  | pop =>
      simp only [perform] at h ⊢
      split at h
      · cases h
      · rfl
  | reset => cases h

/-- The call stack, seen as the list of its live addresses, is a list of at most sixteen. -/
theorem kind_refines : kind.Refines (boundedList 16) toList where
  perform := onList_toList
  depth s := s.length_toList
  isEmpty s := by
    change s.toList.isEmpty = (s.depth == 0)
    rw [← s.length_toList]
    cases s.toList with
    | nil => rfl
    | cons a l => rfl

/-- **The call stack is a bounded list.**  Over any sequence of requests, beginning with no
calls, a call stack gives the answers, depths and emptiness of a list that takes a push in
front if it has fewer than sixteen addresses, gives back its front if it has one, and
becomes empty at a reset.  A request that is refused changes nothing.  And no requests tell
the stack from any other with the same live addresses, whatever lies in the slots above. -/
theorem bounded_lifo (requests : List StackRequest) :
    kind.transcript .empty requests = (boundedList 16).transcript [] requests ∧
    (kind.after .empty requests).toList = (boundedList 16).after [] requests ∧
    (kind.after .empty requests).depth = ((boundedList 16).after [] requests).length ∧
    (kind.after .empty requests).isEmpty = ((boundedList 16).after [] requests).isEmpty ∧
    (∀ request e, ((kind.after .empty requests).perform request).2 = .refused e →
      ((kind.after .empty requests).perform request).1 = kind.after .empty requests) ∧
    ∀ s : CallStack, s.toList = (boundedList 16).after [] requests → ∀ later,
      kind.transcript s later = kind.transcript (kind.after .empty requests) later := by
  have htranscript := kind_refines.transcript .empty requests
  have hafter := kind_refines.after .empty requests
  rw [toList_empty] at htranscript hafter
  refine ⟨htranscript.symm, hafter.symm, ?_, ?_, fun _ _ => perform_of_refused, ?_⟩
  · rw [hafter]
    exact (kind_refines.depth _).symm
  · rw [hafter]
    exact (kind_refines.isEmpty _).symm
  · intro s hs later
    rw [← kind_refines.transcript, ← kind_refines.transcript, hs, hafter]

end CallStack

end Chip8
