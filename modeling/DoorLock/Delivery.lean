import DoorLock.Buffers

/-!
# What `event_publish` reports

The result of a send is not looked at: `event_publish` returns `true` for every receiver that has a
queue, whether the message was delivered or not.
-/

namespace DoorLock

section
variable (env : Env) (w : World) (sender recver : Component) (content : MsgContent)
  (eventStruct : EventStruct)

/-- The message goes to the end of the queue of its receiver, with a copy of its content in a buffer
of its own, and no other queue changes. -/
def Appends (w' : World) : Prop :=
  ∃ q, recver.queue = some q ∧
    w'.queue q = w.queue q ++ [⟨sender, recver, eventStruct, w.nextAddr, content⟩] ∧
    ∀ q', q' ≠ q → w'.queue q' = w.queue q'

/-- `event_publish` returns `true` just when the message was appended; otherwise no queue changes,
and the messages that are queued stay as they are. -/
structure PublishesRight : Prop where
  appended : (eventPublish env w sender recver content eventStruct).2 = true ↔
    Appends w sender recver content eventStruct
      (eventPublish env w sender recver content eventStruct).1
  unchanged : (eventPublish env w sender recver content eventStruct).2 = false →
    ∀ q, (eventPublish env w sender recver content eventStruct).1.queue q = w.queue q
  kept : ∀ q, w.queue q <+: (eventPublish env w sender recver content eventStruct).1.queue q

end

section
variable {env : Env} {w w' : World} {sender recver : Component} {content : MsgContent}
  {eventStruct : EventStruct}

theorem eventPublish_snd (env : Env) (w : World) (sender recver : Component) (content : MsgContent)
    (eventStruct : EventStruct) : (eventPublish env w sender recver content eventStruct).2 = true ↔
    recver.queue.isSome = true := by
  cases recver <;> simp [eventPublish, Component.queue]

/-- A message that is delivered is appended to its queue. -/
theorem appends_of_delivers (h : Delivers env w recver) :
    Appends w sender recver content eventStruct
      (eventPublish env w sender recver content eventStruct).1 := by
  obtain ⟨q, hr, hroom⟩ := h
  refine ⟨q, hr, ?_, fun q' hne => ?_⟩
  · rw [queue_eventPublish, if_pos hr, xQueueSend, if_pos hroom]
  · rw [queue_eventPublish, if_neg fun h => hne (Option.some.inj (h.symm.trans hr))]

theorem queue_eventPublish_of_not_delivers (h : ¬Delivers env w recver) (q : Queue) :
    (eventPublish env w sender recver content eventStruct).1.queue q = w.queue q := by
  rw [queue_eventPublish]
  split
  · rename_i hr
    rw [xQueueSend, if_neg fun hroom => h ⟨q, hr, hroom⟩]
  · rfl

theorem not_appends_self (h : ∀ q, w'.queue q = w.queue q) :
    ¬Appends w sender recver content eventStruct w' := by
  rintro ⟨q, -, hq, -⟩
  rw [h q] at hq
  simpa using congrArg List.length hq

theorem queue_prefix (env : Env) (q : Queue) :
    w.queue q <+: (eventPublish env w sender recver content eventStruct).1.queue q := by
  by_cases h : Delivers env w recver
  · have happends : Appends w sender recver content eventStruct _ := appends_of_delivers h
    obtain ⟨q', -, hq, hother⟩ := happends
    by_cases heq : q = q'
    · rw [heq, hq]
      exact List.prefix_append _ _
    · exact (hother q heq).symm ▸ List.prefix_refl _
  · exact (queue_eventPublish_of_not_delivers h q).symm ▸ List.prefix_refl _

/-- A message that should be queued and is not is reported as delivered. -/
theorem not_publishesRight (hqueue : recver.queue ≠ none) (hnot : ¬Delivers env w recver) :
    ¬PublishesRight env w sender recver content eventStruct := by
  intro hright
  have hret := (eventPublish_snd env w sender recver content eventStruct).mpr
    (Option.isSome_iff_ne_none.mpr hqueue)
  exact not_appends_self (queue_eventPublish_of_not_delivers hnot) (hright.appended.mp hret)

/-- What `event_publish` reports is right just when the receiver has no queue, or the message is
delivered. -/
theorem publishesRight_iff (env : Env) (w : World) (sender recver : Component)
    (content : MsgContent) (eventStruct : EventStruct) :
    PublishesRight env w sender recver content eventStruct ↔
      (recver.queue ≠ none → Delivers env w recver) := by
  constructor
  · intro hright hqueue
    by_contra hnot
    exact not_publishesRight hqueue hnot hright
  · intro h
    by_cases hqueue : recver.queue = none
    · have hnot : ¬Delivers env w recver := fun ⟨q, hq, _⟩ => by simp [hqueue] at hq
      have hsame (q : Queue) :
          (eventPublish env w sender recver content eventStruct).1.queue q = w.queue q :=
        queue_eventPublish_of_not_delivers hnot q
      refine ⟨iff_of_false ?_ (not_appends_self hsame), fun _ => hsame, queue_prefix env⟩
      rw [eventPublish_snd, hqueue]
      exact Bool.false_ne_true
    · have hdelivers := h hqueue
      have hret := (eventPublish_snd env w sender recver content eventStruct).mpr
        (Option.isSome_iff_ne_none.mpr hqueue)
      refine ⟨iff_of_true hret (appends_of_delivers hdelivers), fun hfalse => ?_,
        queue_prefix env⟩
      rw [hret] at hfalse
      cases hfalse

end

/-- Six messages wait for the lock, the seventh is dropped, and `true` is returned. -/
theorem full_queue_drops : ∃ env w sender recver content eventStruct,
    ¬PublishesRight env w sender recver content eventStruct := by
  refine ⟨quietEnv, { boot defaultKvdb with
    queueDoorlock := List.replicate 6 wakeMsg }, .servAuth, .hwDoorLock,
    .doorlockEvent ⟨.unlock, 10⟩, .doorlockEvent, not_publishesRight nofun ?_⟩
  rintro ⟨q, hq, hroom⟩
  cases hq
  exact absurd hroom (by decide)

end DoorLock
