import ChainLedger.Proofs.Service.Preparing
import ChainLedger.Proofs.Service.Telling

/-!
# Dispatches

Each job on its way to the queue comes from a block that has been stored, and each job of such a
block is on its way or has been queued, as long as the queue is open. Each block that has been
stored comes from a valid upload of a client.
-/

set_option autoImplicit false

namespace ChainLedger

def Prepared.Valid (pair : Prepared) : Prop :=
  pair.1.validate = .ok () ∧ pair.1.toEntry = .ok pair.2

namespace Service

theorem valid_of_prepare {request : Report.Upload} {prepared : List Prepared}
    (ready : prepare request = .ok prepared) {pair : Prepared} (member : pair ∈ prepared) :
    pair.1 ∈ request.blocks ∧ pair.Valid := by
  obtain ⟨valid, each⟩ := prepare_ok_iff.mp ready
  have validBlocks := ((validate_ok_iff request).mp valid).2.2
  generalize request.blocks = blocks at each validBlocks ⊢
  clear ready
  induction each with
  | nil => cases member
  | @cons block first blocks rest head _ ih =>
      obtain ⟨rfl, converted⟩ := head
      obtain ⟨validFirst, validRest⟩ := List.forall_mem_cons.mp validBlocks
      rcases List.mem_cons.mp member with rfl | member
      · exact ⟨List.mem_cons_self, validFirst, converted⟩
      · exact (ih member validRest).imp_left (List.mem_cons_of_mem _)

namespace Traffic

variable {maxRetries : UInt32} {traffic after : Traffic} {client served : Client}

/-- A job has been queued, or a client is still to queue it. -/
def Sends (traffic : Traffic) (dispatch : Dispatch) : Prop :=
  dispatch ∈ traffic.sent ∨ ∃ client ∈ traffic.clients, dispatch ∈ client.pending

/-- What is sent, against what has been stored. -/
structure Sending (traffic : Traffic) : Prop where
  traced : ∀ dispatch, traffic.Sends dispatch → dispatch ∈ dispatched 0 traffic.stored
  complete : traffic.state.queue.isOpen = true →
    ∀ dispatch ∈ dispatched 0 traffic.stored, traffic.Sends dispatch

theorem Sending.start (uploads : List (List Report.Upload)) (state : State) :
    (Traffic.start uploads state).Sending := by
  refine ⟨?_, (fun _ _ member => nomatch member)⟩
  rintro dispatch (sent | ⟨client, isClient, pending⟩)
  · cases sent
  · obtain ⟨requests, -, rfl⟩ := List.mem_map.mp isClient
    cases pending

theorem Sending.of_same {before after : Traffic} (sending : before.Sending)
    (clients : after.clients = before.clients) (stored : after.stored = before.stored)
    (sent : after.sent = before.sent)
    (isOpen : after.state.queue.isOpen = true → before.state.queue.isOpen = true) :
    after.Sending := by
  have same : ∀ dispatch, after.Sends dispatch ↔ before.Sends dispatch := by
    intro dispatch
    rw [Sends, Sends, clients, sent]
  refine ⟨?_, ?_⟩
  · simp only [same, stored]
    exact sending.traced
  · simp only [same, stored]
    exact fun stillOpen => sending.complete (isOpen stillOpen)

theorem Sending.job_of_sent (sending : traffic.Sending) {job : Job}
    (sent : job ∈ traffic.sent.map (·.job)) : job ∈ traffic.stored.flatMap Prepared.jobs := by
  obtain ⟨dispatch, isSent, rfl⟩ := List.mem_map.mp sent
  rw [← jobs_dispatched 0]
  exact List.mem_map_of_mem (sending.traced dispatch (Or.inl isSent))

theorem exists_split_of_getElem? {Item : Type} {items : List Item} {index : Nat} {item : Item}
    (found : items[index]? = some item) : ∃ earlier later, items = earlier ++ item :: later ∧
      ∀ new, items.set index new = earlier ++ new :: later := by
  obtain ⟨bound, rfl⟩ := List.getElem?_eq_some_iff.mp found
  refine ⟨items.take index, items.drop (index + 1), by simp, fun new => ?_⟩
  rw [List.set_eq_take_append_cons_drop, if_pos bound]

theorem mem_set_of_mem {Item : Type} {items : List Item} {index : Nat} {item other : Item}
    (found : items[index]? = some item) (member : other ∈ items) (new : Item) :
    other = item ∨ other ∈ items.set index new := by
  obtain ⟨earlier, later, split, replaced⟩ := exists_split_of_getElem? found
  rw [split] at member
  rw [replaced]
  simp only [List.mem_append, List.mem_cons] at member ⊢
  tauto

theorem Sending.serve {index : Nat} (sending : traffic.Sending)
    (refusals : OnlyRefusals traffic.state.session.faults)
    (found : traffic.clients[index]? = some client)
    (serves : Served traffic client served after) :
    Sending { after with clients := traffic.clients.set index served } := by
  obtain ⟨pairs, stored, dispatches⟩ := serves.dispatches refusals
  have isClient : client ∈ traffic.clients := List.mem_of_getElem? found
  have isServed : served ∈ traffic.clients.set index served :=
    List.mem_set (List.getElem?_eq_some_iff.mp found).1 _
  have grown : dispatched 0 after.stored =
      dispatched 0 traffic.stored ++ dispatched traffic.stored.length pairs := by
    rw [stored, dispatched_append, Nat.zero_add]
  refine ⟨?_, ?_⟩
  · intro dispatch sends
    rw [grown, List.mem_append]
    have own : dispatch ∈ after.sent ++ served.pending →
        traffic.Sends dispatch ∨ dispatch ∈ dispatched traffic.stored.length pairs := by
      intro member
      rcases dispatches with same | ⟨-, -, sent, pending⟩
      · rw [same, List.mem_append, List.mem_append] at member
        exact member.imp_left (Or.imp_right fun pending => ⟨client, isClient, pending⟩)
      · rw [sent, pending, List.append_nil] at member
        exact Or.inl (Or.inl member)
    rcases sends with sent | ⟨other, isOther, pending⟩
    · exact (own (List.mem_append_left _ sent)).imp_left (sending.traced dispatch)
    · rcases List.mem_or_eq_of_mem_set isOther with old | rfl
      · exact Or.inl (sending.traced dispatch (Or.inr ⟨other, old, pending⟩))
      · exact (own (List.mem_append_right _ pending)).imp_left (sending.traced dispatch)
  · intro isOpen dispatch member
    change after.state.queue.isOpen = true at isOpen
    rw [serves.isOpen] at isOpen
    have same := dispatches.resolve_right fun ⟨closed, _⟩ => by
      rw [isOpen] at closed
      cases closed
    have own : dispatch ∈ after.sent ++ served.pending →
        Sends { after with clients := traffic.clients.set index served } dispatch := by
      intro member
      exact (List.mem_append.mp member).imp_right fun pending => ⟨served, isServed, pending⟩
    rw [grown, List.mem_append] at member
    rcases member with old | new
    · rcases sending.complete isOpen dispatch old with sent | ⟨other, isOther, pending⟩
      · exact own (by simp [same, sent])
      · rcases mem_set_of_mem found isOther served with rfl | kept
        · exact own (by simp [same, pending])
        · exact Or.inr ⟨other, kept, pending⟩
    · exact own (by simp [same, new])

theorem Sending.turn {turn : Turn} (sending : traffic.Sending)
    (refusals : OnlyRefusals traffic.state.session.faults) :
    (traffic.turn maxRetries turn).Sending := by
  cases turn with
  | worker =>
      obtain ⟨clients, stored, sent, isOpen⟩ := work_frame maxRetries traffic
      exact sending.of_same clients stored sent isOpen
  | wait now => exact sending.of_same rfl rfl rfl id
  | arm faults => exact sending.of_same rfl rfl rfl id
  | client index =>
      exact turn_client index sending fun _ _ _ found serves =>
        sending.serve refusals found serves

/-! ## Where blocks come from -/

/-- A block has been stored, or a client is still to store it. -/
def Plans (traffic : Traffic) (pair : Prepared) : Prop :=
  pair ∈ traffic.stored ∨ ∃ client ∈ traffic.clients, pair ∈ client.plan

theorem plans_start {uploads : List (List Report.Upload)} {state : State} {pair : Prepared} :
    (Traffic.start uploads state).Plans pair ↔
      ∃ requests ∈ uploads, ∃ request ∈ requests, ∃ prepared,
        prepare request = .ok prepared ∧ pair ∈ prepared := by
  constructor
  · rintro (stored | ⟨client, isClient, member⟩)
    · cases stored
    · obtain ⟨requests, isUpload, rfl⟩ := List.mem_map.mp isClient
      obtain ⟨request, isRequest, isPrepared⟩ := List.mem_flatMap.mp member
      refine ⟨requests, isUpload, request, isRequest, ?_⟩
      cases ready : prepare request with
      | error error =>
          rw [ready] at isPrepared
          cases isPrepared
      | ok prepared =>
          rw [ready] at isPrepared
          exact ⟨prepared, rfl, isPrepared⟩
  · rintro ⟨requests, isUpload, request, isRequest, prepared, ready, isPrepared⟩
    refine Or.inr ⟨_, List.mem_map_of_mem isUpload, ?_⟩
    refine List.mem_flatMap.mpr ⟨request, isRequest, ?_⟩
    rw [ready]
    exact isPrepared

theorem Plans.of_turn {turn : Turn} {pair : Prepared}
    (plans : (traffic.turn maxRetries turn).Plans pair) : traffic.Plans pair := by
  cases turn with
  | worker =>
      obtain ⟨clients, stored, -⟩ := work_frame maxRetries traffic
      rw [Plans, Traffic.turn, clients, stored] at plans
      exact plans
  | wait now => exact plans
  | arm faults => exact plans
  | client index =>
      revert plans
      refine turn_client index id fun client served after found serves plans => ?_
      have own : pair ∈ after.stored ++ served.plan → traffic.Plans pair := by
        intro member
        exact (List.mem_append.mp (serves.plan_sublist.subset member)).imp_right
          fun planned => ⟨client, List.mem_of_getElem? found, planned⟩
      rcases plans with stored | ⟨other, isOther, planned⟩
      · exact own (List.mem_append_left _ stored)
      · rcases List.mem_or_eq_of_mem_set isOther with old | rfl
        · exact Or.inr ⟨other, old, planned⟩
        · exact own (List.mem_append_right _ planned)

theorem Plans.turn {pair : Prepared} (plans : traffic.Plans pair)
    (noFaults : traffic.state.session.faults = []) (isOpen : traffic.state.queue.isOpen = true)
    (turn : Turn) : (traffic.turn maxRetries turn).Plans pair := by
  cases turn with
  | worker =>
      obtain ⟨clients, stored, -⟩ := work_frame maxRetries traffic
      rw [Plans, Traffic.turn, clients, stored]
      exact plans
  | wait now => exact plans
  | arm faults => exact plans
  | client index =>
      refine turn_client index plans fun client served after found serves => ?_
      have isServed : served ∈ traffic.clients.set index served :=
        List.mem_set (List.getElem?_eq_some_iff.mp found).1 _
      have own : pair ∈ traffic.stored ++ client.plan →
          Plans { after with clients := traffic.clients.set index served } pair := by
        rw [← serves.plan_of_noFaults noFaults isOpen]
        intro member
        exact (List.mem_append.mp member).imp_right fun planned => ⟨served, isServed, planned⟩
      rcases plans with stored | ⟨other, isOther, planned⟩
      · exact own (List.mem_append_left _ stored)
      · rcases mem_set_of_mem found isOther served with rfl | kept
        · exact own (List.mem_append_right _ planned)
        · exact Or.inr ⟨other, kept, planned⟩

/-- Each block that has been stored comes from a valid upload. -/
theorem prepared_of_stored {maxRetries : UInt32} {uploads : List (List Report.Upload)}
    {state : State} {turns : List Turn} {pair : Prepared}
    (stored : pair ∈ ((Traffic.start uploads state).run maxRetries turns).stored) :
    ∃ requests ∈ uploads, ∃ request ∈ requests, ∃ prepared,
      prepare request = .ok prepared ∧ pair ∈ prepared := by
  have step : ∀ (traffic : Traffic) (turn : Turn), True →
      (traffic.Plans pair → (Traffic.start uploads state).Plans pair) →
        (traffic.turn maxRetries turn).Plans pair → (Traffic.start uploads state).Plans pair :=
    fun _ _ _ traced plans => traced plans.of_turn
  have traced : ((Traffic.start uploads state).run maxRetries turns).Plans pair →
      (Traffic.start uploads state).Plans pair :=
    run_keeps step (fun _ _ => trivial) id
  exact plans_start.mp (traced (Or.inl stored))

theorem valid_of_stored {maxRetries : UInt32} {uploads : List (List Report.Upload)}
    {state : State} {turns : List Turn} :
    ∀ pair ∈ ((Traffic.start uploads state).run maxRetries turns).stored, pair.Valid := by
  intro pair stored
  obtain ⟨-, -, request, -, prepared, ready, member⟩ := prepared_of_stored stored
  exact (valid_of_prepare ready member).2

theorem told_run (maxRetries : UInt32) {content : Content} {state : State}
    (shows : state.session.store.Shows content) (refusals : OnlyRefusals state.session.faults)
    (uploads : List (List Report.Upload)) {turns : List Turn}
    (refusing : ∀ turn ∈ turns, turn.Refusing) :
    ((Traffic.start uploads state).run maxRetries turns).Told content state.queue.jobs ∧
      ((Traffic.start uploads state).run maxRetries turns).Sending := by
  have step : ∀ (traffic : Traffic) (turn : Turn), turn.Refusing →
      traffic.Told content state.queue.jobs ∧ traffic.Sending →
        (traffic.turn maxRetries turn).Told content state.queue.jobs ∧
          (traffic.turn maxRetries turn).Sending :=
    fun _ _ refusing ⟨told, sending⟩ => ⟨told.turn refusing, sending.turn told.refusals⟩
  exact run_keeps step refusing ⟨.start shows refusals uploads, .start uploads state⟩

end Traffic

end Service
end ChainLedger
