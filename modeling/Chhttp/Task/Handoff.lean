import Chhttp.Task.State

/-!
# The hand-off of a task

The invariants follow the three things that the parties share: the word (`WordInv`), the mutex
(`MutexInv`) and the references (`ReferenceInv`).

An awaiter that is abandoned while its continuation is registered leaves the address in `handoff`
(`abandoned_awaiter_resumed`).  All other runs hand the result over (`handoff_sound`).
-/

namespace Chhttp

open Transition

namespace TaskState

variable {s t : TaskState} {a : ProducerStep} {b : ConsumerStep}

/-! ### The word -/

/-- The producer is at or behind `publish`. -/
def Published : ProducerPhase → Prop
  | .running => False
  | .stored => False
  | _ => True

/-- The producer is about to wake up a consumer that blocks. -/
def Waking : ProducerPhase → Prop
  | .published .parked => True
  | .notifying => True
  | _ => False

/-- The words that go with a phase of the consumer. -/
def Accords (word : Word) (p : ProducerPhase) (block : Bool) : ConsumerPhase → Prop
  | .testing .unclaimed => word ≠ .address ∧ (word = .parked → block = true)
  | .testing .completed => word = .completed
  | .testing .parked => (word = .parked ∨ word = .completed) ∧ block = true
  | .testing .address => False
  | .announcing => word ≠ .address ∧ block = true
  | .locking => (word = .parked ∨ word = .completed) ∧ block = true
  | .checking => (word = .parked ∨ word = .completed) ∧ block = true
  | .sleeping => (word = .parked ∨ word = .completed ∧ Waking p) ∧ block = true
  | .leaving => word = .completed ∧ block = true
  | .suspended => word = .address ∨ word = .completed ∧ p = .published .address
  | .collecting => word = .completed
  | _ => word = .unclaimed ∨ word = .completed

/-- What the word says about the two parties.  This is the main part: it says that the two parties
cannot both think that the other one will act. -/
structure WordInv (s : TaskState) : Prop where
  published : s.handoff = .completed ↔ Published s.producer
  accords : Accords s.handoff s.producer s.block s.consumer
  /-- The address that is resumed is the one of a suspended consumer. -/
  resuming : s.producer = .published .address → s.consumer = .suspended
  /-- The block exists before `parked` is visible. -/
  allocated : Waking s.producer → s.block = true

/-- Publishing the result. -/
lemma Accords.publish {word : Word} {p : ProducerPhase} {block : Bool} {c : ConsumerPhase}
    (h : Accords word p block c) (hword : word ≠ .completed) :
    Accords .completed (.published word) block c := by
  cases c with
  | testing w => cases w <;> simp_all [Accords]
  | _ => simp_all [Accords, Waking]

/-- The word that `wait` reads. -/
lemma accords_testing {word : Word} {p : ProducerPhase} {block : Bool} (haddress : word ≠ .address)
    (hparked : word = .parked → block = true) : Accords word p block (.testing word) := by
  cases word with
  | unclaimed => exact ⟨haddress, hparked⟩
  | completed => rfl
  | parked => exact ⟨Or.inl rfl, hparked rfl⟩
  | address => exact absurd rfl haddress

/-- Only a suspended consumer has registered an address. -/
lemma Accords.suspended {p : ProducerPhase} {block : Bool} {c : ConsumerPhase}
    (h : Accords .address p block c) : c = .suspended := by
  cases c with
  | testing w => cases w <;> simp [Accords] at h
  | suspended => rfl
  | _ => simp [Accords] at h

/-- Only a consumer that has allocated the block has stored `parked`. -/
lemma Accords.allocated {p : ProducerPhase} {block : Bool} {c : ConsumerPhase}
    (h : Accords .parked p block c) : block = true := by
  cases c with
  | testing w => cases w <;> simp [Accords] at h <;> exact h
  | _ => simp [Accords] at h <;> exact h

/-- The word of a consumer that is neither asleep nor suspended does not depend on the producer. -/
lemma Accords.of_ne {word : Word} {p p' : ProducerPhase} {block : Bool} {c : ConsumerPhase}
    (h : Accords word p block c) (hsleeping : c = .sleeping → Waking p → Waking p')
    (hsuspended : p ≠ .published .address) : Accords word p' block c := by
  cases c with
  | sleeping =>
    refine ⟨?_, h.2⟩
    rcases h.1 with hword | ⟨hword, hwaking⟩
    · exact Or.inl hword
    · exact Or.inr ⟨hword, hsleeping rfl hwaking⟩
  | suspended =>
    rcases h with hword | ⟨-, hp⟩
    · exact Or.inl hword
    · exact absurd hp hsuspended
  | testing w => cases w <;> exact h
  | _ => exact h

/-- The steps of the producer keep the invariant. -/
lemma WordInv.produces (h : s.WordInv) (hm : Produces s a t) : t.WordInv := by
  obtain ⟨hpublished, haccords, hresuming, hallocated⟩ := h
  cases hm with
  | store hphase =>
    rw [hphase] at hpublished haccords
    exact ⟨hpublished, haccords.of_ne (fun _ hw => hw.elim) (by simp), fun hp => (nomatch hp),
      fun hw => hw.elim⟩
  | publish hphase =>
    rw [hphase] at hpublished
    refine ⟨⟨fun _ => trivial, fun _ => rfl⟩, haccords.publish hpublished.mp, ?_, ?_⟩
    · -- the producer read the word as it published: an address is a suspended consumer
      intro hp
      have hword : s.handoff = .address := by simpa using hp
      rw [hword] at haccords
      exact haccords.suspended
    · intro hw
      dsimp only at hw
      generalize s.handoff = word at haccords hw
      cases word with
      | parked => exact haccords.allocated
      | _ => exact hw.elim
  | resume hphase =>
    rw [hphase] at hpublished
    refine ⟨hpublished, ?_, fun hp => (nomatch hp), fun hw => hw.elim⟩
    dsimp only
    rw [if_pos (hresuming hphase)]
    exact hpublished.mpr trivial
  | skip hphase hword =>
    rw [hphase] at hpublished haccords
    refine ⟨hpublished, ?_, fun hp => (nomatch hp), fun hw => hw.elim⟩
    rcases hword with rfl | rfl
    · exact haccords.of_ne (fun _ hw => hw.elim) (by simp)
    · exact haccords.of_ne (fun _ hw => hw.elim) (by simp)
  | lock hphase hmutex =>
    rw [hphase] at hpublished haccords hallocated
    exact ⟨hpublished, haccords.of_ne (fun _ _ => trivial) (by simp), fun hp => (nomatch hp),
      fun _ => hallocated trivial⟩
  | notify hphase =>
    rw [hphase] at hpublished haccords hallocated
    refine ⟨hpublished, ?_, fun hp => (nomatch hp), fun hw => hw.elim⟩
    dsimp only
    -- the consumer sleeps on the condition variable, or it has not got there
    split_ifs with hsleeping
    · exact ⟨Or.inr (hpublished.mpr trivial), hallocated trivial⟩
    · exact haccords.of_ne (fun hc => absurd hc hsleeping) (by simp)
  | unlock hphase =>
    rw [hphase] at hpublished haccords
    exact ⟨hpublished, haccords.of_ne (fun _ hw => hw.elim) (by simp), fun hp => (nomatch hp),
      fun hw => hw.elim⟩
  | drop hphase =>
    rw [hphase] at hpublished haccords
    refine ⟨?_, haccords.of_ne (fun _ hw => hw.elim) (by simp), ?_, ?_⟩
    · dsimp only
      split_ifs <;> exact hpublished
    · intro hp
      dsimp only at hp
      split_ifs at hp
    · intro hw
      dsimp only at hw
      split_ifs at hw <;> exact hw.elim
  | destroy hphase =>
    rw [hphase] at hpublished haccords
    exact ⟨hpublished, haccords.of_ne (fun _ hw => hw.elim) (by simp), fun hp => (nomatch hp),
      fun hw => hw.elim⟩

/-- A consumer that is not suspended, and stays so, keeps the invariant if the word goes with its
new phase. -/
lemma WordInv.of_consumer (h : s.WordInv) (hs : s.consumer ≠ .suspended)
    (hproducer : t.producer = s.producer) (hblock : s.block = true → t.block = true)
    (hpublished : t.handoff = .completed ↔ s.handoff = .completed)
    (haccords : Accords t.handoff t.producer t.block t.consumer) : t.WordInv := by
  refine ⟨?_, haccords, ?_, ?_⟩
  · rw [hproducer, hpublished]
    exact h.published
  · rw [hproducer]
    exact fun hp => absurd (h.resuming hp) hs
  · rw [hproducer]
    exact fun hw => hblock (h.allocated hw)

/-- The steps of the consumer keep the invariant, unless it abandons an awaiter that is
registered. -/
lemma WordInv.consumes (h : s.WordInv) (hm : Consumes s b t)
    (hb : b = .abandon → s.consumer ≠ .suspended) : t.WordInv := by
  have haccords := h.accords
  cases hm with
  | poll hphase => exact h
  | suspendRetry hphase => exact h
  -- only a consumer that is not registered may go away: this is the exception
  | abandon hphase =>
    have hs := hb rfl
    refine h.of_consumer hs rfl id Iff.rfl ?_
    rcases hphase with hphase | hphase | hphase
    · rw [hphase] at haccords
      exact haccords
    · rw [hphase] at haccords
      exact haccords
    · exact absurd hphase hs
  | get hphase | await hphase | readyWait hphase hword | testCompleted hphase | testParked hphase
  | lock hphase hmutex | destroy hphase =>
    rw [hphase] at haccords
    exact h.of_consumer (by simp [hphase]) rfl id Iff.rfl haccords
  | readyDone hphase hword | suspendLate hphase hword =>
    exact h.of_consumer (by simp [hphase]) rfl id Iff.rfl hword
  | load hphase =>
    rw [hphase] at haccords
    refine h.of_consumer (by simp [hphase]) rfl id Iff.rfl (accords_testing ?_ ?_)
    · intro hword
      rcases haccords with hword' | hword' <;> cases hword.symm.trans hword'
    · intro hword
      rcases haccords with hword' | hword' <;> cases hword.symm.trans hword'
  -- the block is allocated before the word names it
  | testUnclaimed hphase =>
    rw [hphase] at haccords
    exact h.of_consumer (by simp [hphase]) rfl (fun _ => rfl) Iff.rfl ⟨haccords.1, rfl⟩
  | testAddress hphase =>
    rw [hphase] at haccords
    exact haccords.elim
  | announce hphase hword =>
    rw [hphase] at haccords
    exact h.of_consumer (by simp [hphase]) rfl id (by simp [hword]) ⟨by simp, fun _ => haccords.2⟩
  | announceLate hphase hword =>
    rw [hphase] at haccords
    exact h.of_consumer (by simp [hphase]) rfl id Iff.rfl (accords_testing haccords.1 fun _ => haccords.2)
  | checkDone hphase hword =>
    rw [hphase] at haccords
    exact h.of_consumer (by simp [hphase]) rfl id Iff.rfl ⟨hword, haccords.2⟩
  | checkWait hphase hword =>
    rw [hphase] at haccords
    exact h.of_consumer (by simp [hphase]) rfl id Iff.rfl
      ⟨Or.inl (haccords.1.resolve_right hword), haccords.2⟩
  | wake hphase =>
    rw [hphase] at haccords
    exact h.of_consumer (by simp [hphase]) rfl id Iff.rfl ⟨haccords.1.imp id And.left, haccords.2⟩
  | unlock hphase =>
    rw [hphase] at haccords
    exact h.of_consumer (by simp [hphase]) rfl id Iff.rfl haccords.1
  | suspend hphase hword =>
    exact h.of_consumer (by simp [hphase]) rfl id (by simp [hword]) (Or.inl rfl)
  | collect hphase =>
    rw [hphase] at haccords
    exact h.of_consumer (by simp [hphase]) rfl id Iff.rfl (Or.inr haccords)
  | drop hphase =>
    rw [hphase] at haccords
    refine h.of_consumer (by simp [hphase]) rfl id Iff.rfl ?_
    dsimp only
    split_ifs <;> exact haccords

/-! ### The mutex -/

/-- Who holds the mutex.  A party holds it only where its code is between lock and unlock. -/
structure MutexInv (s : TaskState) : Prop where
  producer : s.mutex = some .producer → s.producer = .notifying ∨ s.producer = .unlocking
  consumer : s.mutex = some .consumer → s.consumer = .checking ∨ s.consumer = .leaving

/-- The steps of the producer keep the invariant. -/
lemma MutexInv.produces (h : s.MutexInv) (hm : Produces s a t) : t.MutexInv := by
  obtain ⟨hproducer, hconsumer⟩ := h
  cases hm with
  | lock hphase hmutex => exact ⟨fun _ => Or.inl rfl, fun hc => (nomatch hc)⟩
  | notify hphase =>
    refine ⟨fun _ => Or.inr rfl, fun hc => ?_⟩
    dsimp only
    rcases hconsumer hc with hchecking | hleaving
    · rw [hchecking]
      exact Or.inl rfl
    · rw [hleaving]
      exact Or.inr rfl
  | unlock hphase => exact ⟨fun hp => (nomatch hp), fun hc => (nomatch hc)⟩
  | resume hphase =>
    refine ⟨fun hp => ?_, fun hc => ?_⟩
    · rcases hproducer hp with hnot | hnot <;> cases hphase.symm.trans hnot
    · dsimp only
      rcases hconsumer hc with hchecking | hleaving
      · rw [hchecking]
        exact Or.inl rfl
      · rw [hleaving]
        exact Or.inr rfl
  | store hphase | publish hphase | skip hphase hword | drop hphase | destroy hphase =>
    refine ⟨fun hp => ?_, hconsumer⟩
    rcases hproducer hp with hnot | hnot <;> cases hphase.symm.trans hnot

/-- The steps of the consumer keep the invariant. -/
lemma MutexInv.consumes (h : s.MutexInv) (hm : Consumes s b t) : t.MutexInv := by
  obtain ⟨hproducer, hconsumer⟩ := h
  cases hm with
  | poll hphase | suspendRetry hphase => exact ⟨hproducer, hconsumer⟩
  | lock hphase hmutex => exact ⟨fun hp => (nomatch hp), fun _ => Or.inl rfl⟩
  | checkDone hphase hword => exact ⟨hproducer, fun _ => Or.inr rfl⟩
  | checkWait hphase hword | unlock hphase => exact ⟨fun hp => (nomatch hp), fun hc => (nomatch hc)⟩
  | abandon hphase =>
    refine ⟨hproducer, fun hc => ?_⟩
    rcases hphase with hphase | hphase | hphase <;>
      rcases hconsumer hc with hnot | hnot <;> cases hphase.symm.trans hnot
  | get hphase | load hphase | testCompleted hphase | testUnclaimed hphase | testParked hphase
  | testAddress hphase | announce hphase hword | announceLate hphase hword | wake hphase
  | await hphase | readyDone hphase hword | readyWait hphase hword | suspend hphase hword
  | suspendLate hphase hword | collect hphase | drop hphase | destroy hphase =>
    refine ⟨hproducer, fun hc => ?_⟩
    rcases hconsumer hc with hnot | hnot <;> cases hphase.symm.trans hnot

/-! ### The references -/

/-- The reference of the producer. -/
def ProducerHolds : ProducerPhase → ℕ
  | .last => 0
  | .finished => 0
  | _ => 1

/-- The reference of the consumer. -/
def ConsumerHolds : ConsumerPhase → ℕ
  | .last => 0
  | .finished => 0
  | _ => 1

/-- The references are counted, and the party that drops the last one destroys the frame.  Neither
party touches the state behind its own drop, unless it was the last. -/
structure ReferenceInv (s : TaskState) : Prop where
  references : s.references = ProducerHolds s.producer + ConsumerHolds s.consumer
  lastProducer : s.producer = .last → s.consumer = .finished
  lastConsumer : s.consumer = .last → s.producer = .finished
  destroyed : s.destroyed = if s.producer = .finished ∧ s.consumer = .finished then 1 else 0

/-- A producer that holds its reference. -/
lemma producer_of_holds {p : ProducerPhase} (h : ProducerHolds p = 1) :
    p ≠ .last ∧ p ≠ .finished := by
  constructor <;> rintro rfl <;> cases h

/-- A consumer that holds its reference. -/
lemma consumer_of_holds {c : ConsumerPhase} (h : ConsumerHolds c = 1) :
    c ≠ .last ∧ c ≠ .finished := by
  constructor <;> rintro rfl <;> cases h

/-- A consumer that does not hold its reference. -/
lemma consumer_of_holds_zero {c : ConsumerPhase} (h : ConsumerHolds c = 0) :
    c = .last ∨ c = .finished := by
  cases c with
  | last => exact Or.inl rfl
  | finished => exact Or.inr rfl
  | _ => cases h

/-- A producer that does not hold its reference. -/
lemma producer_of_holds_zero {p : ProducerPhase} (h : ProducerHolds p = 0) :
    p = .last ∨ p = .finished := by
  cases p with
  | last => exact Or.inl rfl
  | finished => exact Or.inr rfl
  | _ => cases h

/-- Either party has at most one reference. -/
lemma holds_le (p : ProducerPhase) (c : ConsumerPhase) :
    ProducerHolds p ≤ 1 ∧ ConsumerHolds c ≤ 1 := by
  constructor
  · cases p <;> simp [ProducerHolds]
  · cases c <;> simp [ConsumerHolds]

/-- A producer that goes on without dropping its reference. -/
lemma ReferenceInv.of_producer (h : s.ReferenceInv) {p : ProducerPhase}
    (hs : ProducerHolds s.producer = 1) (hp : ProducerHolds p = 1)
    (hreferences : t.references = s.references) (hdestroyed : t.destroyed = s.destroyed)
    (hproducer : t.producer = p) (hconsumer : t.consumer = s.consumer) : t.ReferenceInv := by
  obtain ⟨hcount, hlastProducer, hlastConsumer, hfinished⟩ := h
  subst hproducer
  refine ⟨by rw [hreferences, hcount, hconsumer, hs, hp], ?_, ?_, ?_⟩
  · exact fun hlast => absurd hlast (producer_of_holds hp).1
  · rw [hconsumer]
    exact fun hlast => absurd (hlastConsumer hlast) (producer_of_holds hs).2
  · rw [hdestroyed, hfinished, if_neg (fun hboth => (producer_of_holds hs).2 hboth.1),
      if_neg (fun hboth => (producer_of_holds hp).2 hboth.1)]

/-- A consumer that goes on without dropping its reference. -/
lemma ReferenceInv.of_consumer (h : s.ReferenceInv) {c : ConsumerPhase}
    (hs : ConsumerHolds s.consumer = 1) (hc : ConsumerHolds c = 1)
    (hreferences : t.references = s.references) (hdestroyed : t.destroyed = s.destroyed)
    (hproducer : t.producer = s.producer) (hconsumer : t.consumer = c) : t.ReferenceInv := by
  obtain ⟨hcount, hlastProducer, hlastConsumer, hfinished⟩ := h
  subst hconsumer
  refine ⟨by rw [hreferences, hcount, hproducer, hs, hc], ?_, ?_, ?_⟩
  · rw [hproducer]
    exact fun hlast => absurd (hlastProducer hlast) (consumer_of_holds hs).2
  · exact fun hlast => absurd hlast (consumer_of_holds hc).1
  · rw [hdestroyed, hfinished, if_neg (fun hboth => (consumer_of_holds hs).2 hboth.2),
      if_neg (fun hboth => (consumer_of_holds hc).2 hboth.2)]

/-- A consumer that is woken up has its reference before and after. -/
lemma ReferenceInv.woken (h : s.ReferenceInv) (c c' : ConsumerPhase) (hs : ConsumerHolds c = 1)
    (hc : ConsumerHolds c' = 1) :
    { s with consumer := if s.consumer = c then c' else s.consumer }.ReferenceInv := by
  split_ifs with hconsumer
  · exact h.of_consumer (hconsumer ▸ hs) hc rfl rfl rfl rfl
  · exact h

/-- The steps of the producer keep the invariant. -/
lemma ReferenceInv.produces (h : s.ReferenceInv) (hword : s.WordInv) (hm : Produces s a t) :
    t.ReferenceInv := by
  cases hm with
  | store hphase | publish hphase | skip hphase _ | lock hphase _ | unlock hphase =>
    exact h.of_producer (by rw [hphase]; rfl) rfl rfl rfl rfl rfl
  | resume hphase =>
    exact (h.woken .suspended .collecting rfl rfl).of_producer (by rw [hphase]; rfl)
      rfl rfl rfl rfl rfl
  | notify hphase =>
    exact (h.woken .sleeping .locking rfl rfl).of_producer (by rw [hphase]; rfl)
      rfl rfl rfl rfl rfl
  | drop hphase =>
    obtain ⟨hcount, -, hlastConsumer, hfinished⟩ := h
    have hheld : ProducerHolds s.producer = 1 := by rw [hphase]; rfl
    rw [hheld] at hcount
    rw [if_neg (fun hboth => (producer_of_holds hheld).2 hboth.1)] at hfinished
    have hnot : s.consumer ≠ .last :=
      fun hlast => (producer_of_holds hheld).2 (hlastConsumer hlast)
    by_cases hone : s.references = 1
    · have hconsumer : s.consumer = .finished :=
        (consumer_of_holds_zero (by omega)).resolve_left hnot
      refine ⟨?_, fun _ => hconsumer, fun hlast => absurd hlast hnot, ?_⟩
      · dsimp only
        rw [if_pos hone, hone, hconsumer]
        rfl
      · dsimp only
        rw [if_pos hone, hfinished, if_neg (by simp)]
    · have hconsumer : ConsumerHolds s.consumer = 1 := by
        have := (holds_le s.producer s.consumer).2
        omega
      refine ⟨?_, ?_, fun hlast => absurd hlast hnot, ?_⟩
      · dsimp only
        rw [if_neg hone, hcount, hconsumer]
        rfl
      · intro hlast
        dsimp only at hlast
        rw [if_neg hone] at hlast
        cases hlast
      · dsimp only
        rw [if_neg hone, hfinished, if_neg (fun hboth => (consumer_of_holds hconsumer).2 hboth.2)]
  | destroy hphase =>
    obtain ⟨hcount, hlastProducer, -, hfinished⟩ := h
    have hconsumer := hlastProducer hphase
    have hdone : s.done = true := by
      rw [done_iff, hword.published, hphase]
      trivial
    rw [hphase, hconsumer] at hcount
    refine ⟨by rw [hcount, hconsumer]; rfl, fun hlast => (nomatch hlast), ?_, ?_⟩
    · exact fun _ => rfl
    · rw [hfinished, hphase, hconsumer, hdone]
      rfl

/-- The steps of the consumer keep the invariant. -/
lemma ReferenceInv.consumes (h : s.ReferenceInv) (hword : s.WordInv) (hm : Consumes s b t) :
    t.ReferenceInv := by
  cases hm with
  | poll hphase | suspendRetry hphase => exact h
  | get hphase | load hphase | testCompleted hphase | testUnclaimed hphase | testParked hphase
  | testAddress hphase | announce hphase _ | announceLate hphase _ | lock hphase _
  | checkDone hphase _ | checkWait hphase _ | wake hphase | unlock hphase | await hphase
  | readyDone hphase _ | readyWait hphase _ | suspend hphase _ | suspendLate hphase _
  | collect hphase =>
    exact h.of_consumer (by rw [hphase]; rfl) rfl rfl rfl rfl rfl
  | abandon hphase =>
    refine h.of_consumer ?_ rfl rfl rfl rfl rfl
    rcases hphase with hphase | hphase | hphase <;> rw [hphase] <;> rfl
  | drop hphase =>
    obtain ⟨hcount, hlastProducer, -, hfinished⟩ := h
    have hheld : ConsumerHolds s.consumer = 1 := by rw [hphase]; rfl
    rw [hheld] at hcount
    rw [if_neg (fun hboth => (consumer_of_holds hheld).2 hboth.2)] at hfinished
    have hnot : s.producer ≠ .last :=
      fun hlast => (consumer_of_holds hheld).2 (hlastProducer hlast)
    -- with the last reference the consumer must destroy the state; else the producer still holds it
    by_cases hone : s.references = 1
    · have hproducer : s.producer = .finished :=
        (producer_of_holds_zero (by omega)).resolve_left hnot
      refine ⟨?_, fun hlast => absurd hlast hnot, fun _ => hproducer, ?_⟩
      · dsimp only
        rw [if_pos hone, hone, hproducer]
        rfl
      · dsimp only
        rw [if_pos hone, hfinished, if_neg (by simp)]
    · have hproducer : ProducerHolds s.producer = 1 := by
        have := (holds_le s.producer s.consumer).1
        omega
      refine ⟨?_, fun hlast => absurd hlast hnot, ?_, ?_⟩
      · dsimp only
        rw [if_neg hone, hcount, hproducer]
        rfl
      · intro hlast
        dsimp only at hlast
        rw [if_neg hone] at hlast
        cases hlast
      · dsimp only
        rw [if_neg hone, hfinished, if_neg (fun hboth => (producer_of_holds hproducer).2 hboth.1)]
  | destroy hphase =>
    obtain ⟨hcount, -, hlastConsumer, hfinished⟩ := h
    have hproducer := hlastConsumer hphase
    have hdone : s.done = true := by
      rw [done_iff, hword.published, hproducer]
      trivial
    rw [hphase, hproducer] at hcount
    refine ⟨by rw [hcount, hproducer]; rfl, fun _ => rfl, fun hlast => (nomatch hlast), ?_⟩
    rw [hfinished, hphase, hproducer, hdone]
    rfl

/-! ### The continuation and the result -/

/-- The consumer has not suspended yet. -/
def Early : ConsumerPhase → Prop
  | .holding => True
  | .awaiting => True
  | .registering => True
  | _ => False

/-- A continuation is registered at most once, and resumed once it is no longer suspended.  And the
value is there before anybody can see that the task has completed. -/
structure ResumeInv (s : TaskState) : Prop where
  early : Early s.consumer → s.suspensions = 0
  suspended : s.consumer = .suspended → s.suspensions = 1 ∧ s.resumptions = 0
  other : s.consumer ≠ .suspended → s.suspensions ≤ 1 ∧ s.resumptions = s.suspensions
  value : s.producer ≠ .running → s.value = true

/-- The steps of the producer keep the invariant. -/
lemma ResumeInv.produces (h : s.ResumeInv) (hword : s.WordInv) (hm : Produces s a t) :
    t.ResumeInv := by
  obtain ⟨hearly, hsuspended, hother, hvalue⟩ := h
  cases hm with
  | store hphase => exact ⟨hearly, hsuspended, hother, fun _ => rfl⟩
  | publish hphase | skip hphase _ | lock hphase _ | unlock hphase | drop hphase
  | destroy hphase =>
    exact ⟨hearly, hsuspended, hother, fun _ => hvalue (by rw [hphase]; simp)⟩
  | notify hphase =>
    have hvalue' := hvalue (by rw [hphase]; simp)
    by_cases hsleeping : s.consumer = .sleeping
    · rw [if_pos hsleeping]
      exact ⟨fun he => he.elim, fun hc => (nomatch hc), fun _ => hother (by simp [hsleeping]),
        fun _ => hvalue'⟩
    · rw [if_neg hsleeping]
      exact ⟨hearly, hsuspended, hother, fun _ => hvalue'⟩
  | resume hphase =>
    obtain ⟨hone, hzero⟩ := hsuspended (hword.resuming hphase)
    rw [if_pos (hword.resuming hphase)]
    exact ⟨fun he => he.elim, fun hc => (nomatch hc), fun _ => ⟨hone.le, by rw [hzero, hone]⟩,
      fun _ => hvalue (by rw [hphase]; simp)⟩

/-- The steps of the consumer keep the invariant, unless it abandons an awaiter that is
registered. -/
lemma ResumeInv.consumes (h : s.ResumeInv) (hm : Consumes s b t)
    (hb : b = .abandon → s.consumer ≠ .suspended) : t.ResumeInv := by
  obtain ⟨hearly, hsuspended, hother, hvalue⟩ := h
  cases hm with
  | poll hphase | suspendRetry hphase => exact ⟨hearly, hsuspended, hother, hvalue⟩
  | await hphase | readyWait hphase _ =>
    rw [hphase] at hearly hother
    exact ⟨fun _ => hearly trivial, fun hc => (nomatch hc), fun _ => hother (by simp), hvalue⟩
  | suspend hphase hword =>
    rw [hphase] at hearly hother
    have hzero := hearly trivial
    obtain ⟨-, hequal⟩ := hother (by simp)
    exact ⟨fun he => he.elim, fun _ => ⟨by rw [hzero], by rw [hequal, hzero]⟩,
      fun hc => absurd rfl hc, hvalue⟩
  | abandon hphase =>
    exact ⟨fun he => he.elim, fun hc => (nomatch hc), fun _ => hother (hb rfl), hvalue⟩
  | drop hphase =>
    rw [hphase] at hother
    refine ⟨fun he => ?_, fun hc => ?_, fun _ => hother (by simp), hvalue⟩
    · dsimp only at he
      split_ifs at he <;> exact he.elim
    · dsimp only at hc
      split_ifs at hc
  | get hphase | load hphase | testCompleted hphase | testUnclaimed hphase | testParked hphase
  | testAddress hphase | announce hphase _ | announceLate hphase _ | lock hphase _
  | checkDone hphase _ | checkWait hphase _ | wake hphase | unlock hphase
  | readyDone hphase _ | suspendLate hphase _ | collect hphase | destroy hphase =>
    rw [hphase] at hother
    exact ⟨fun he => he.elim, fun hc => (nomatch hc), fun _ => hother (by simp), hvalue⟩

/-! ### Runs -/

/-- The invariant of a task.  The parts are proved one after the other, because the later ones use
the first. -/
structure Inv (s : TaskState) : Prop where
  word : s.WordInv
  mutex : s.MutexInv
  references : s.ReferenceInv
  resume : s.ResumeInv

/-- The invariant holds when the coroutine starts. -/
lemma inv_start : Inv {} where
  word := ⟨⟨fun hw => (nomatch hw), fun hp => hp.elim⟩, Or.inl rfl, fun hp => (nomatch hp),
    fun hw => hw.elim⟩
  mutex := ⟨fun hp => (nomatch hp), fun hc => (nomatch hc)⟩
  references := ⟨rfl, fun hp => (nomatch hp), fun hc => (nomatch hc), rfl⟩
  resume := ⟨fun _ => rfl, fun hc => (nomatch hc), fun _ => ⟨by decide, rfl⟩, fun hp => absurd rfl hp⟩

/-- The consumer does not abandon an awaiter whose continuation is registered.  The claim holds of
the runs in which it does not; what happens otherwise is shown by the counterexample. -/
def Kept (v : TaskState × TaskStep) : Prop :=
  v.2 = .consumer .abandon → v.1.consumer ≠ .suspended

/-- Every other step keeps the invariant.  Excluded is only the awaiter that goes away while it is
registered, which the source has no way to notice. -/
theorem Inv.step {step : TaskStep} (h : s.Inv) (hnext : s.next step = some t)
    (hkept : Kept (s, step)) : t.Inv := by
  obtain ⟨hword, hmutex, hreferences, hresume⟩ := h
  cases step with
  | producer a =>
    have hm := produces_of_produce hnext
    exact ⟨hword.produces hm, hmutex.produces hm, hreferences.produces hword hm,
      hresume.produces hword hm⟩
  | consumer b =>
    have hm := consumes_of_consume hnext
    have hb : b = .abandon → s.consumer ≠ .suspended := fun h => hkept (congrArg _ h)
    exact ⟨hword.consumes hm hb, hmutex.consumes hm, hreferences.consumes hword hm,
      hresume.consumes hm hb⟩

variable {trace : List (TaskState × TaskStep)}

/-- The invariant of a run. -/
lemma inv_run (hrun : Run next {} trace t) (hkept : ∀ v ∈ trace, Kept v) : t.Inv := by
  induction hrun with
  | start => exact inv_start
  | step _ hnext ih =>
    rw [List.forall_mem_append, List.forall_mem_singleton] at hkept
    exact (ih hkept.1).step hnext hkept.2

/-- A step is a step of a party that has not finished, so the frame is still there. -/
lemma Inv.not_destroyed {step : TaskStep} (h : s.Inv) (hnext : s.next step = some t) :
    s.destroyed = 0 := by
  rw [h.references.destroyed, if_neg]
  rintro ⟨hproducer, hconsumer⟩
  cases step with
  | producer a =>
    simp only [TaskState.next, hproducer] at hnext
    cases a <;> cases hnext
  | consumer b =>
    simp only [TaskState.next, hconsumer] at hnext
    cases b <;> cases hnext

/-- The mutex is free while nobody is in its critical section. -/
lemma MutexInv.free (h : s.MutexInv) (hp : s.producer ≠ .notifying ∧ s.producer ≠ .unlocking)
    (hc : s.consumer ≠ .checking ∧ s.consumer ≠ .leaving) : s.mutex = none := by
  cases hmutex : s.mutex with
  | none => rfl
  | some party =>
    cases party with
    | producer => exact absurd (h.producer hmutex) (by simp [hp])
    | consumer => exact absurd (h.consumer hmutex) (by simp [hc])

/-- The producer can go on until it has notified a consumer that sleeps.  So a consumer that sleeps
is not forgotten. -/
lemma Inv.notified (h : s.Inv) (hsleeping : s.consumer = .sleeping) :
    ∃ (steps : List ProducerStep) (u : TaskState),
      perform next s (steps.map .producer) = some u ∧ u.consumer = .locking := by
  have haccords := h.word.accords
  rw [hsleeping] at haccords
  have hpublished := h.word.published
  have hmutex := h.mutex.free
  rcases haccords.1 with hparked | ⟨-, hwaking⟩
  · cases hproducer : s.producer with
    | running =>
      have hfree := hmutex (by simp [hproducer]) (by simp [hsleeping])
      exact ⟨[.store, .publish, .lock, .notify], _,
        by
          simp [perform, next, produce, hproducer, hparked, hsleeping, hfree]
          rfl, rfl⟩
    | stored =>
      have hfree := hmutex (by simp [hproducer]) (by simp [hsleeping])
      exact ⟨[.publish, .lock, .notify], _,
        by
          simp [perform, next, produce, hproducer, hparked, hsleeping, hfree]
          rfl, rfl⟩
    | _ => simp [hparked, hproducer, Published] at hpublished
  · cases hproducer : s.producer with
    | published w =>
      cases w with
      | parked =>
        have hfree := hmutex (by simp [hproducer]) (by simp [hsleeping])
        exact ⟨[.lock, .notify], _,
          by
          simp [perform, next, produce, hproducer, hsleeping, hfree]
          rfl, rfl⟩
      | _ => simp [hproducer, Waking] at hwaking
    | notifying =>
      exact ⟨[.notify], _, by simp [perform, next, produce, hproducer, hsleeping]; rfl, rfl⟩
    | _ => simp [hproducer, Waking] at hwaking

/-- The producer can go on until it has resumed a consumer that is suspended. -/
lemma Inv.resumed (h : s.Inv) (hsuspended : s.consumer = .suspended) :
    ∃ (steps : List ProducerStep) (u : TaskState),
      perform next s (steps.map .producer) = some u ∧ u.consumer = .collecting ∧
        u.resumptions = 1 := by
  have haccords := h.word.accords
  rw [hsuspended] at haccords
  have hpublished := h.word.published
  have hzero := (h.resume.suspended hsuspended).2
  rcases haccords with haddress | ⟨-, hproducer⟩
  · cases hproducer : s.producer with
    | running =>
      exact ⟨[.store, .publish, .resume], _,
        by
          simp [perform, next, produce, hproducer, haddress, hsuspended, hzero]
          rfl, rfl, rfl⟩
    | stored =>
      exact ⟨[.publish, .resume], _,
        by
          simp [perform, next, produce, hproducer, haddress, hsuspended, hzero]
          rfl, rfl, rfl⟩
    | _ => simp [haddress, hproducer, Published] at hpublished
  · exact ⟨[.resume], _,
      by simp [perform, next, produce, hproducer, hsuspended, hzero]; rfl, rfl, rfl⟩

/-- The coroutine is past `publish`. -/
def Resumed : ProducerPhase → Prop
  | .releasing => True
  | .last => True
  | .finished => True
  | _ => False

/-- What the parties are promised.  The continuation is resumed exactly once if it was registered,
and never otherwise; a blocked `get` is notified; and the frame is destroyed exactly once, when the
result has been published and both references are gone. -/
structure HandedOver (s : TaskState) : Prop where
  suspensions : s.resumptions ≤ s.suspensions ∧ s.suspensions ≤ 1
  resumed : Resumed s.producer → s.resumptions = s.suspensions
  resuming : s.consumer = .suspended → ∃ (steps : List ProducerStep) (u : TaskState),
    perform next s (steps.map .producer) = some u ∧ u.consumer = .collecting ∧ u.resumptions = 1
  notified : s.consumer = .sleeping → ∃ (steps : List ProducerStep) (u : TaskState),
    perform next s (steps.map .producer) = some u ∧ u.consumer = .locking
  awake : Resumed s.producer → s.consumer ≠ .suspended ∧ s.consumer ≠ .sleeping
  destroyed : s.destroyed ≤ 1 ∧
    (s.destroyed = 1 → s.handoff = .completed ∧ s.references = 0)
  finished : s.producer = .finished → s.consumer = .finished → s.destroyed = 1

/-- A step finds what it uses: the frame, the block of a consumer that blocks, the result, and a
suspended consumer to resume. -/
structure Sound (v : TaskState × TaskStep) : Prop where
  frame : v.1.destroyed = 0
  block : v.2 = .producer .lock ∨ v.2 = .producer .notify ∨ v.2 = .consumer .lock ∨
    v.2 = .consumer .check → v.1.block = true
  value : v.2 = .consumer .collect → v.1.value = true
  resume : v.2 = .producer .resume → v.1.consumer = .suspended

/-- What the invariant promises. -/
lemma Inv.handedOver (h : s.Inv) : HandedOver s := by
  have hawake : Resumed s.producer → s.consumer ≠ .suspended ∧ s.consumer ≠ .sleeping := by
    intro hresumed
    have hpublished := h.word.published
    have haccords := h.word.accords
    constructor
    · intro hsuspended
      rw [hsuspended] at haccords
      rcases haccords with haddress | ⟨-, hproducer⟩
      · cases hproducer : s.producer <;> simp_all [Resumed, Published]
      · simp [hproducer, Resumed] at hresumed
    · intro hsleeping
      rw [hsleeping] at haccords
      rcases haccords.1 with hparked | ⟨-, hwaking⟩
      · cases hproducer : s.producer <;> simp_all [Resumed, Published]
      · cases hproducer : s.producer <;> simp_all [Resumed, Waking]
  refine ⟨?_, fun hresumed => (h.resume.other (hawake hresumed).1).2, h.resumed, h.notified,
    hawake, ?_, ?_⟩
  · by_cases hsuspended : s.consumer = .suspended
    · obtain ⟨hone, hzero⟩ := h.resume.suspended hsuspended
      omega
    · obtain ⟨hone, hequal⟩ := h.resume.other hsuspended
      omega
  · rw [h.references.destroyed]
    split_ifs with hboth
    · refine ⟨le_rfl, fun _ => ⟨?_, ?_⟩⟩
      · rw [h.word.published, hboth.1]
        trivial
      · rw [h.references.references, hboth.1, hboth.2]
        rfl
    · exact ⟨Nat.zero_le 1, fun hzero => (nomatch hzero)⟩
  · intro hproducer hconsumer
    rw [h.references.destroyed, if_pos ⟨hproducer, hconsumer⟩]

/-- A step finds what it uses. -/
lemma Inv.sound {step : TaskStep} (h : s.Inv) (hnext : s.next step = some t) :
    Sound (s, step) := by
  refine ⟨h.not_destroyed hnext, ?_, ?_, ?_⟩
  · rintro (hstep | hstep | hstep | hstep)
    · obtain rfl : step = _ := hstep
      cases produces_of_produce hnext with
      | lock hphase _ => exact h.word.allocated (hphase ▸ trivial)
    · obtain rfl : step = _ := hstep
      cases produces_of_produce hnext with
      | notify hphase => exact h.word.allocated (hphase ▸ trivial)
    · obtain rfl : step = _ := hstep
      cases consumes_of_consume hnext with
      | lock hphase _ =>
        have haccords := h.word.accords
        rw [hphase] at haccords
        exact haccords.2
    · obtain rfl : step = _ := hstep
      have haccords := h.word.accords
      cases consumes_of_consume hnext with
      | checkDone hphase _ | checkWait hphase _ =>
        rw [hphase] at haccords
        exact haccords.2
  · intro hstep
    obtain rfl : step = _ := hstep
    cases consumes_of_consume hnext with
    | collect hphase =>
      have haccords := h.word.accords
      rw [hphase] at haccords
      apply h.resume.value
      intro hrunning
      have hpublished := h.word.published.mp haccords
      rw [hrunning] at hpublished
      exact hpublished
  · intro hstep
    obtain rfl : step = _ := hstep
    cases produces_of_produce hnext with
    | resume hphase => exact h.word.resuming hphase

/-- The result is handed over in every run in which no awaiter is abandoned while its continuation
is registered. -/
theorem handoff_sound (hrun : Run next {} trace t) (hkept : ∀ v ∈ trace, Kept v) :
    HandedOver t ∧ ∀ v ∈ trace, Sound v := by
  refine ⟨(inv_run hrun hkept).handedOver, ?_⟩
  induction hrun with
  | start => simp
  | step hrun hnext ih =>
    rw [List.forall_mem_append, List.forall_mem_singleton] at hkept
    rw [List.forall_mem_append, List.forall_mem_singleton]
    exact ⟨ih hkept.1, (inv_run hrun hkept.1).sound hnext⟩

/-- A consumer that suspends and is resumed. -/
theorem handoff_sound_of_suspended :
    ∃ trace t, Run next {} trace t ∧ t.resumptions = 1 ∧ t.destroyed = 1 ∧ HandedOver t ∧
      ∀ v ∈ trace, Sound v := by
  have hrun : Run next {} _ _ :=
    (((((((((Run.start.step (a := .consumer .await) rfl).step (a := .consumer .ready) rfl).step
      (a := .consumer .suspend) rfl).step (a := .producer .store) rfl).step
      (a := .producer .publish) rfl).step (a := .producer .resume) rfl).step
      (a := .consumer .collect) rfl).step (a := .consumer .drop) rfl).step
      (a := .producer .drop) rfl).step (a := .producer .destroy) rfl
  exact ⟨_, _, hrun, rfl, rfl, handoff_sound hrun (by simp [Kept])⟩

/-- An awaiter is abandoned while its continuation is registered; the coroutine resumes a
continuation that is gone. -/
theorem abandoned_awaiter_resumed :
    ∃ trace t v, Run next {} trace t ∧ v ∈ trace ∧ v.2 = .producer .resume ∧
      v.1.consumer = .finished := by
  have hrun : Run next {} _ _ :=
    (((((((Run.start.step (a := .consumer .await) rfl).step (a := .consumer .ready) rfl).step
      (a := .consumer .suspend) rfl).step (a := .consumer .abandon) rfl).step
      (a := .consumer .drop) rfl).step (a := .producer .store) rfl).step
      (a := .producer .publish) rfl).step (a := .producer .resume) rfl
  exact ⟨_, _, _, hrun, List.mem_append_right _ (List.mem_singleton_self _), rfl, rfl⟩

end TaskState

end Chhttp
