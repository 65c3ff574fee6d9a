import EduDevices.Library.Host
import EduDevices.Proof.PfOperations

namespace EduDevices

open Execution

/-- The device executes a descriptor that asks for an interrupt. -/
def Event.asks : Event DmaDescriptor → Bool
  | .mark desc => desc.flags &&& descFlagInt ≠ 0
  | _ => false

section Words

variable {pdev : PCIDevice} {manual : Nat → Prop} {word : List (Event DmaDescriptor)}

/-- In a word that ends with its only interrupts, an interrupt comes after all the rest. -/
theorem last_of_silent {body tail early late : List (Event DmaDescriptor)} {vector : Nat}
    (silent : ∀ raised, Event.msixNotify raised ∉ body) (single : tail.length ≤ 1)
    (split : body ++ tail = early ++ .msixNotify vector :: late) :
    early = body ∧ .msixNotify vector ∈ tail := by
  rcases List.append_eq_append_iff.mp split with ⟨between, rfl, rest⟩ | ⟨between, whole, rest⟩
  · have short : between.length + (late.length + 1) ≤ 1 := by
      rw [rest, List.length_append, List.length_cons] at single
      exact single
    have none : between = [] := List.eq_nil_of_length_eq_zero (by omega)
    rw [rest, none]
    exact ⟨List.append_nil _, by simp⟩
  · cases between with
    | nil =>
        rw [List.append_nil] at whole
        rw [List.nil_append] at rest
        exact ⟨whole.symm, by simp [← rest]⟩
    | cons first between =>
        obtain ⟨rfl, -⟩ := List.cons.inj rest
        exact absurd (by simp [whole]) (silent vector)

theorem length_notice (vector : Nat) : (pdev.notice vector).length ≤ 1 := by
  unfold PCIDevice.notice
  split <;> simp

theorem length_asked (desc : DmaDescriptor) : (desc.asked pdev).length ≤ 1 := by
  unfold DmaDescriptor.asked
  split
  · exact length_notice 1
  · decide

theorem mem_notice {vector raised : Nat} (member : .msixNotify raised ∈ pdev.notice vector) :
    pdev.msixEnabled = true ∧ raised = vector := by
  unfold PCIDevice.notice at member
  split at member
  · exact ⟨‹_›, by simpa using member⟩
  · exact absurd member List.not_mem_nil

theorem mem_asked {desc : DmaDescriptor} {raised : Nat}
    (member : .msixNotify raised ∈ desc.asked pdev) : pdev.msixEnabled = true ∧ raised = 1 := by
  unfold DmaDescriptor.asked at member
  split at member
  · exact mem_notice member
  · exact absurd member List.not_mem_nil

theorem mem_of_split {vector : Nat} {early late : List (Event DmaDescriptor)}
    (split : word = early ++ .msixNotify vector :: late) : .msixNotify vector ∈ word := by
  rw [split]
  exact List.mem_append_right early List.mem_cons_self

/-- Message interrupts are raised when they are on, by hand or right after a write. -/
theorem PfOperation.notified (operation : PfOperation pdev manual word) {vector : Nat}
    {early late : List (Event DmaDescriptor)} (split : word = early ++ .msixNotify vector :: late) :
    pdev.msixEnabled = true ∧ (manual vector ∨ vector < 3 ∧ ∃ earlier address data result,
      early = earlier ++ [.dmaWrite address data result]) := by
  cases operation with
  | copy src dst data read written short =>
      obtain ⟨rfl, member⟩ := last_of_silent (by simp) (length_notice 0) split
      obtain ⟨enabled, rfl⟩ := mem_notice member
      exact ⟨enabled, .inr ⟨by decide, [_], _, _, _, rfl⟩⟩
  | raise raised few asked enabled =>
      obtain rfl : vector = raised := by simpa using mem_of_split split
      exact ⟨enabled, .inl asked⟩
  | assert disabled => exact absurd (mem_of_split split) (by simp)
  | deassert => exact absurd (mem_of_split split) (by simp)
  | peer address data written => exact absurd (mem_of_split split) (by simp)
  | translate address read => exact absurd (mem_of_split split) (by simp)
  | refused slot data read whole => exact absurd (mem_of_split split) (by simp)
  | failed slot desc bytes data written whole decoded valid length =>
      obtain ⟨rfl, member⟩ := last_of_silent (by simp) (length_asked desc) split
      obtain ⟨enabled, rfl⟩ := mem_asked member
      exact ⟨enabled, .inr ⟨by decide, [_, _, _], _, _, _, rfl⟩⟩
  | moved slot desc bytes data landed written whole decoded valid length =>
      obtain ⟨rfl, member⟩ := last_of_silent (by simp) (length_asked desc) split
      obtain ⟨enabled, rfl⟩ := mem_asked member
      exact ⟨enabled, .inr ⟨by decide, [_, _, _, _], _, _, _, rfl⟩⟩
  | crypto src dst rk iv encrypts data read written short blocks =>
      obtain ⟨rfl, member⟩ := last_of_silent (by simp) (length_notice 2) split
      obtain ⟨enabled, rfl⟩ := mem_notice member
      exact ⟨enabled, .inr ⟨by decide, [_], _, _, _, rfl⟩⟩

/-- The pin is raised when the message interrupts are off. -/
theorem PfOperation.pinned (operation : PfOperation pdev manual word)
    (member : .intx true ∈ word) : pdev.msixEnabled = false := by
  cases operation with
  | assert disabled => exact disabled
  | _ => simp [PCIDevice.notice, DmaDescriptor.asked] at member

@[simp] theorem countP_notice (counted : Event DmaDescriptor → Bool) (vector : Nat) :
    (pdev.notice vector).countP counted =
      if pdev.msixEnabled ∧ counted (.msixNotify vector) then 1 else 0 := by
  unfold PCIDevice.notice
  split <;> simp [List.countP_singleton, *]

@[simp] theorem countP_asked (counted : Event DmaDescriptor → Bool) (desc : DmaDescriptor) :
    (desc.asked pdev).countP counted = if (pdev.msixEnabled ∧ counted (.msixNotify 1)) ∧
      Event.asks (.mark desc) then 1 else 0 := by
  unfold DmaDescriptor.asked
  split
  next flagged =>
      have asks : (Event.mark desc).asks = true := decide_eq_true flagged
      simp [asks]
  next unflagged =>
      have silent : (Event.mark desc).asks = false := decide_eq_false unflagged
      simp [silent]

/-- An operation interrupts on the second vector when it executes a descriptor that asks for it. -/
theorem PfOperation.counted (operation : PfOperation pdev manual word) (quiet : ¬ manual 1) :
    word.countP (Event.notifies 1) =
      word.countP fun event => pdev.msixEnabled && event.asks := by
  cases operation with
  | raise vector few asked enabled =>
      have other : vector ≠ 1 := fun same => quiet (same ▸ asked)
      simp [Event.notifies, Event.asks, other]
  | _ => simp [Event.notifies, Event.asks, List.countP_cons]

end Words

/-- The interrupts among the events of one access. Message interrupts are sent while they are on and
the pin is raised while they are off. A message interrupt that the access does not raise by hand
comes right after a write, and on the second vector there is one for each executed descriptor that
asks for it. -/
structure Interrupts (pdev : PCIDevice) (access : PfWrite) (events : List (Event DmaDescriptor)) :
    Prop where
  messages : ∀ vector, .msixNotify vector ∈ events → pdev.msixEnabled = true
  pin : .intx true ∈ events → pdev.msixEnabled = false
  caused : ∀ before vector after, events = before ++ .msixNotify vector :: after →
    ¬ access.Raises vector → vector < 3 ∧ ∃ earlier address data result,
      before = earlier ++ [.dmaWrite address data result]
  counted : pdev.msixEnabled = true → ¬ access.Raises 1 →
    events.countP (Event.notifies 1) = events.countP Event.asks

/-- What holds of the operations of an access holds of the access. -/
theorem interrupts_of_turns {pdev : PCIDevice} {access : PfWrite} {g next : Guest DmaDescriptor}
    {later : List (Event DmaDescriptor)} (turned : g.Turns (PfOperation pdev access.Raises) next)
    (grown : next.trace = g.trace ++ later) : Interrupts pdev access later where
  messages := by
    intro vector member
    obtain ⟨before, after, split⟩ := List.append_of_mem member
    obtain ⟨front, early, late, -, operation⟩ := turned.split grown split
    exact (operation.notified rfl).1
  pin := by
    intro member
    obtain ⟨before, after, split⟩ := List.append_of_mem member
    obtain ⟨front, early, late, -, operation⟩ := turned.split grown split
    exact operation.pinned (by simp)
  caused := by
    intro before vector after split unasked
    obtain ⟨front, early, late, rfl, operation⟩ := turned.split grown split
    rcases (operation.notified rfl).2 with asked | ⟨small, earlier, address, data, result, last⟩
    · exact absurd asked unasked
    · exact ⟨small, front ++ earlier, address, data, result, by rw [last, List.append_assoc]⟩
  counted := by
    intro enabled unasked
    rw [turned.counts grown fun word operation => operation.counted unasked]
    simp [enabled]

/-- In any run from any state, the interrupts of every access follow these rules. -/
theorem pfRun_interrupts (dma : Dma DmaDescriptor) (s : EduPciState) (g : Guest DmaDescriptor)
    (accesses : List PfWrite) (final : EduPciState × Guest DmaDescriptor)
    (finished : run (pfAccess dma) (s, g) accesses = .ok final) :
    ∃ parts : List (List (Event DmaDescriptor)),
      List.Forall₂ (Interrupts s.parentObj) accesses parts ∧
      final.2.trace = g.trace ++ parts.flatten := by
  induction accesses generalizing s g with
  | nil =>
      obtain rfl := Except.ok.inj finished
      exact ⟨[], .nil, (List.append_nil _).symm⟩
  | cons access rest ih =>
      obtain ⟨⟨next, guest⟩, taken, ran⟩ := (run_cons_ok_iff _ _ _ _ _).mp finished
      obtain ⟨turned, same⟩ := turns_pfAccess dma s g taken
      obtain ⟨part, grown⟩ : ∃ part, guest.trace = g.trace ++ part := by
        obtain ⟨words, -, grown⟩ := turned
        exact ⟨words.flatten, grown⟩
      obtain ⟨parts, matched, longer⟩ := ih next guest ran
      dsimp only at same
      rw [same] at matched
      refine ⟨part :: parts, .cons (interrupts_of_turns turned grown) matched, ?_⟩
      rw [longer, grown, List.flatten_cons, List.append_assoc]

theorem pfRun_interrupts_mixed : ∃ final parts,
    run (pfAccess reliableDma) (EduPciState.zeroed ⟨true⟩, mixedGuest) mixedAccesses = .ok final ∧
    List.Forall₂ (Interrupts ⟨true⟩) mixedAccesses parts ∧
    final.2.trace = [] ++ parts.flatten := by
  obtain ⟨final, finished⟩ := mixedAccesses_returns
  obtain ⟨parts, lawful, grown⟩ := pfRun_interrupts reliableDma (EduPciState.zeroed ⟨true⟩)
    mixedGuest mixedAccesses final finished
  exact ⟨final, parts, finished, lawful, grown⟩

end EduDevices
