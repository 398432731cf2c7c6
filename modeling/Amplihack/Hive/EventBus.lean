import Amplihack.Base.Dict
import Amplihack.Base.Runs
import Amplihack.Hive.Query

/-
  The event bus of a hive, and the orchestrator of an agent.

  A bus hands an agent the events it asks for in order, each
  at most once. A fact that one hive relays to another is not
  relayed again.
-/

-- Events

namespace Hive

open Base

/-
  A payload as its readers see it: a member that is missing
  or of another type is `none`.
-/
structure Payload where
  concept : Option String
  content : Option String
  confidence : Option Float

structure BusEvent where
  eventId : String
  topic : String
  payload : Payload
  sourceId : String
  timestamp : ℤ

/- What a new id and the clock give to an event or a fact. -/
structure Stamp where
  id : String
  now : ℤ

def makeEvent
    (stamp : Stamp) (topic sourceId : String) (payload : Payload) :
    BusEvent where
  eventId := stamp.id
  topic := topic
  payload := payload
  sourceId := sourceId
  timestamp := stamp.now

-- The Bus

def maxMailboxSize : ℕ := 1000000

/- A subscription is to some topics, or to all of them. -/
structure LocalEventBus where
  subscriptions : Dict String (Option (List String))
  mailboxes : Dict String (List BusEvent)
  closed : Bool

namespace LocalEventBus

def new : LocalEventBus where
  subscriptions := .empty
  mailboxes := .empty
  closed := false

/- A full mailbox loses its oldest event. -/
def pushEvent (mailbox : List BusEvent) (event : BusEvent) :
    List BusEvent :=
  if maxMailboxSize ≤ mailbox.length then
    mailbox.drop 1 ++ [event]
  else mailbox ++ [event]

def wants (eventTypes : Option (List String)) (event : BusEvent) :
    Bool :=
  match eventTypes with
  | some types => types.contains event.topic
  | none => true

def deliver
    (event : BusEvent) (mailboxes : Dict String (List BusEvent))
    (subscription : String × Option (List String)) :
    Dict String (List BusEvent) :=
  if wants subscription.2 event then
    mailboxes.insert subscription.1
      (pushEvent ((mailboxes.get? subscription.1).getD []) event)
  else mailboxes

def publish (bus : LocalEventBus) (event : BusEvent) :
    LocalEventBus :=
  if bus.closed then bus
  else
    { bus with
      mailboxes :=
        bus.subscriptions.entries.foldl (deliver event) bus.mailboxes }

/- A mailbox that is there is kept. -/
def subscribe
    (bus : LocalEventBus) (agentId : String)
    (eventTypes : Option (List String)) :
    LocalEventBus :=
  { bus with
    subscriptions := bus.subscriptions.insert agentId eventTypes
    mailboxes :=
      match bus.mailboxes.get? agentId with
      | some _ => bus.mailboxes
      | none => bus.mailboxes.insert agentId [] }

def unsubscribe (bus : LocalEventBus) (agentId : String) :
    LocalEventBus :=
  { bus with
    subscriptions := bus.subscriptions.remove agentId
    mailboxes := bus.mailboxes.remove agentId }

def pendingEvents (bus : LocalEventBus) (agentId : String) :
    List BusEvent :=
  (bus.mailboxes.get? agentId).getD []

def poll (bus : LocalEventBus) (agentId : String) :
    List BusEvent × LocalEventBus :=
  (bus.pendingEvents agentId,
    { bus with mailboxes := bus.mailboxes.remove agentId })

def close (_ : LocalEventBus) : LocalEventBus where
  subscriptions := .empty
  mailboxes := .empty
  closed := true

def Subscribed (bus : LocalEventBus) (agentId : String) : Prop :=
  (bus.subscriptions.get? agentId).isSome

end LocalEventBus

-- Orchestrators

structure HiveFact where
  factId : String
  concept : String
  content : String
  confidence : Float
  sourceId : String
  tags : List String
  createdAt : ℤ
  status : String
  metadata : Dict String String

inductive HiveError where
| invalidConfidence (confidence : Float)
| factNotFound (factId : String)
| controller (message : String)

def ValidConfidence (confidence : Float) : Prop :=
  0.0 ≤ confidence ∧ confidence ≤ 1.0

instance (confidence : Float) :
    Decidable (ValidConfidence confidence) :=
  inferInstanceAs (Decidable (_ ∧ _))

/-
  Orchestrators of a controller have no peers, no gossip and
  the default policy, and nothing is sent over a bus of
  their own.
-/
structure HiveMindOrchestrator where
  agentId : String
  facts : List HiveFact
  pendingEvents : List BusEvent

structure PromotionResult where
  factId : String
  promoted : Bool
  broadcast : Bool

def shouldPromote (fact : HiveFact) : Bool :=
  fact.status != "retracted" && decide (0.7 ≤ fact.confidence)

def shouldBroadcast (fact : HiveFact) : Bool :=
  fact.status != "retracted" && decide (0.9 ≤ fact.confidence)

namespace HiveMindOrchestrator

def withAgentId (agentId : String) : HiveMindOrchestrator where
  agentId := agentId
  facts := []
  pendingEvents := []

def storeFact
    (o : HiveMindOrchestrator) (stamp : Stamp)
    (concept content : String) (confidence : Float) (sourceId : String) :
    Except HiveError (String × HiveMindOrchestrator) :=
  if ValidConfidence confidence then
    .ok (stamp.id,
      { o with
        facts := o.facts ++
          [{ factId := stamp.id
             concept := concept
             content := content
             confidence := confidence
             sourceId := sourceId
             tags := []
             createdAt := stamp.now
             status := "promoted"
             metadata := .empty }] })
  else .error (.invalidConfidence confidence)

def getFact (o : HiveMindOrchestrator) (factId : String) :
    Option HiveFact :=
  o.facts.find? fun f => f.factId == factId

def storeAndPromote
    (o : HiveMindOrchestrator) (stamp : Stamp)
    (concept content : String) (confidence : Float) (sourceId : String) :
    Except HiveError (PromotionResult × HiveMindOrchestrator) :=
  match o.storeFact stamp concept content confidence sourceId with
  | .error e => .error e
  | .ok (factId, stored) =>
    match stored.getFact factId with
    | none => .error (.factNotFound factId)
    | some fact =>
      .ok ({ factId := factId
             promoted := shouldPromote fact
             broadcast := shouldBroadcast fact },
        stored)

def queryFacts
    (toLowercase : String → String) (o : HiveMindOrchestrator)
    (concept : String) (minConfidence : Float) (limit : ℕ) :
    List HiveFact :=
  let results := o.facts.filter fun f =>
    f.status != "retracted" &&
      contains (toLowercase f.concept) (toLowercase concept) &&
      decide (minConfidence ≤ f.confidence)
  (results.mergeSort fun a b =>
    !decide (a.confidence < b.confidence)).take limit

def query
    (toLowercase : String → String) (o : HiveMindOrchestrator)
    (concept : String) :
    List HiveFact :=
  o.queryFacts toLowercase concept 0.0 100

/- An event stays pending; a fact it carries is stored. -/
def processEvent
    (stamp : Stamp) (o : HiveMindOrchestrator) (event : BusEvent) :
    HiveMindOrchestrator :=
  let received :=
    { o with pendingEvents := o.pendingEvents ++ [event] }
  match event.payload.concept, event.payload.content,
    event.payload.confidence with
  | some concept, some content, some confidence =>
    match received.storeFact stamp concept content confidence
      event.sourceId with
    | .ok (_, stored) => stored
    | .error _ => received
  | _, _, _ => received

/- A stored fact is found again, so only its confidence counts. -/
theorem storeAndPromote_isOk_iff
    (o : HiveMindOrchestrator) (stamp : Stamp)
    (concept content : String) (confidence : Float) (sourceId : String) :
    (o.storeAndPromote stamp concept content confidence
      sourceId).isOk ↔ ValidConfidence confidence := by
  unfold storeAndPromote storeFact
  by_cases hValid : ValidConfidence confidence
  · rw [if_pos hValid]
    simp only [hValid, iff_true]
    split
    next hNone =>
      simp [getFact] at hNone
    next => rfl
  · rw [if_neg hValid]
    simp [hValid, Except.isOk, Except.toBool]

end HiveMindOrchestrator

-- Mailboxes Of Subscribers

namespace LocalEventBus

variable {bus : LocalEventBus}

/- Only a subscriber has a mailbox. -/
def Boxed (bus : LocalEventBus) : Prop :=
  ∀ agentId, (bus.mailboxes.get? agentId).isSome → bus.Subscribed agentId

theorem Boxed.subscribe
    (hBoxed : bus.Boxed) (agentId : String)
    (eventTypes : Option (List String)) :
    (bus.subscribe agentId eventTypes).Boxed := by
  intro other hBox
  unfold Subscribed LocalEventBus.subscribe
  rw [Dict.get?_insert]
  by_cases hSame : other = agentId
  · simp [hSame]
  · rw [if_neg hSame]
    apply hBoxed
    unfold LocalEventBus.subscribe at hBox
    dsimp only at hBox
    split at hBox
    · exact hBox
    · simpa [hSame] using hBox

theorem Boxed.unsubscribe
    (hBoxed : bus.Boxed) (agentId : String) :
    (bus.unsubscribe agentId).Boxed := by
  intro other hBox
  unfold Subscribed LocalEventBus.unsubscribe
  unfold LocalEventBus.unsubscribe at hBox
  rw [Dict.get?_remove] at hBox ⊢
  by_cases hSame : other = agentId
  · simp [hSame] at hBox
  · rw [if_neg hSame] at hBox ⊢
    exact hBoxed other hBox

theorem Boxed.poll
    (hBoxed : bus.Boxed) (agentId : String) :
    (bus.poll agentId).2.Boxed := by
  intro other hBox
  unfold LocalEventBus.poll at hBox
  dsimp only at hBox
  rw [Dict.get?_remove] at hBox
  by_cases hSame : other = agentId
  · simp [hSame] at hBox
  · rw [if_neg hSame] at hBox
    exact hBoxed other hBox

/- An event goes to mailboxes there are and to subscribers. -/
theorem isSome_of_delivered
    {event : BusEvent} {subscriptions : List (String × Option (List String))}
    {mailboxes : Dict String (List BusEvent)} {agentId : String}
    (hBox : ((subscriptions.foldl (deliver event)
      mailboxes).get? agentId).isSome) :
    (mailboxes.get? agentId).isSome ∨
      agentId ∈ subscriptions.map Prod.fst := by
  induction subscriptions generalizing mailboxes with
  | nil => exact Or.inl hBox
  | cons first rest ih =>
    rw [List.foldl_cons] at hBox
    rcases ih hBox with hBefore | hRest
    · unfold deliver at hBefore
      by_cases hWants : wants first.2 event
      · rw [if_pos hWants, Dict.get?_insert] at hBefore
        by_cases hSame : agentId = first.1
        · exact Or.inr (by simp [hSame])
        · rw [if_neg hSame] at hBefore
          exact Or.inl hBefore
      · rw [if_neg hWants] at hBefore
        exact Or.inl hBefore
    · exact Or.inr (List.mem_cons_of_mem _ hRest)

theorem Boxed.publish
    (hBoxed : bus.Boxed) (event : BusEvent) :
    (bus.publish event).Boxed := by
  unfold LocalEventBus.publish
  split
  · exact hBoxed
  · intro agentId hBox
    rcases isSome_of_delivered hBox with hBefore | hMem
    · exact hBoxed agentId hBefore
    · unfold Subscribed
      rw [Option.isSome_iff_ne_none]
      intro hNone
      exact Dict.get?_eq_none_iff.mp hNone hMem

@[simp] theorem publish_subscriptions
    (bus : LocalEventBus) (event : BusEvent) :
    (bus.publish event).subscriptions = bus.subscriptions := by
  unfold LocalEventBus.publish
  split
  · rfl
  · rfl

/- Without a mailbox no event is pending. -/
theorem Boxed.pendingEvents_eq_nil
    (hBoxed : bus.Boxed) {agentId : String}
    (hNot : ¬ bus.Subscribed agentId) :
    bus.pendingEvents agentId = [] := by
  unfold LocalEventBus.pendingEvents
  cases hGet : bus.mailboxes.get? agentId with
  | none => rfl
  | some mailbox => exact absurd (hBoxed agentId (by simp [hGet])) hNot

end LocalEventBus

-- Deliveries

/- What is done to a bus. -/
inductive BusStep where
| publish (event : BusEvent)
| subscribe (agentId : String) (eventTypes : Option (List String))
| unsubscribe (agentId : String)
| poll (agentId : String)
| close

namespace LocalEventBus

variable {bus : LocalEventBus} {agentId : String}

def step (bus : LocalEventBus) : BusStep → LocalEventBus
| .publish event => bus.publish event
| .subscribe agentId eventTypes => bus.subscribe agentId eventTypes
| .unsubscribe agentId => bus.unsubscribe agentId
| .poll agentId => (bus.poll agentId).2
| .close => bus.close

/- The bus is open and the agent asks for the event. -/
def asksFor
    (bus : LocalEventBus) (agentId : String) (event : BusEvent) :
    Bool :=
  !bus.closed && (bus.subscriptions.get? agentId).any (wants · event)

/- The events published while the agent asks for them. -/
def sent (agentId : String) :
    LocalEventBus → List BusStep → List BusEvent
| _, [] => []
| bus, .publish event :: steps =>
  (if bus.asksFor agentId event then [event] else []) ++
    sent agentId (bus.publish event) steps
| bus, step :: steps => sent agentId (bus.step step) steps

/- What an agent's polls hand it, then what is still pending. -/
def received (agentId : String) :
    LocalEventBus → List BusStep → List BusEvent
| bus, [] => bus.pendingEvents agentId
| bus, .poll other :: steps =>
  (if agentId = other then (bus.poll other).1 else []) ++
    received agentId (bus.poll other).2 steps
| bus, step :: steps => received agentId (bus.step step) steps

/- The agent neither leaves the bus nor sees it close. -/
def Stays (agentId : String) (steps : List BusStep) : Prop :=
  ∀ step ∈ steps, step ≠ .close ∧ step ≠ .unsubscribe agentId

/- Each mailbox is given the event at most once. -/
theorem get?_foldl_deliver
    (event : BusEvent) {subscriptions : List (String × Option (List String))}
    (hNodup : (subscriptions.map Prod.fst).Nodup)
    (mailboxes : Dict String (List BusEvent)) :
    (subscriptions.foldl (deliver event) mailboxes).get? agentId =
      if ((subscriptions.find? (·.1 = agentId)).map Prod.snd).any
          (wants · event) then
        some (pushEvent ((mailboxes.get? agentId).getD []) event)
      else mailboxes.get? agentId := by
  induction subscriptions generalizing mailboxes with
  | nil => simp
  | cons first rest ih =>
    rw [List.map_cons, List.nodup_cons] at hNodup
    rw [List.foldl_cons, ih hNodup.2]
    by_cases hFirst : first.1 = agentId
    · have hRest : rest.find? (·.1 = agentId) = none := by
        rw [List.find?_eq_none]
        intro other hMem hSame
        refine hNodup.1 (List.mem_map.mpr ⟨other, hMem, ?_⟩)
        simpa [hFirst] using hSame
      by_cases hWants : wants first.2 event = true <;>
        simp [hRest, hFirst, deliver, hWants]
    · have hOther : (deliver event mailboxes first).get? agentId =
          mailboxes.get? agentId := by
        unfold deliver
        split
        · rw [Dict.get?_insert, if_neg (Ne.symm hFirst)]
        · rfl
      simp [hFirst, hOther]

/- A publication reaches those that ask for it, once. -/
theorem pendingEvents_publish (event : BusEvent) :
    (bus.publish event).pendingEvents agentId =
      if bus.asksFor agentId event then
        pushEvent (bus.pendingEvents agentId) event
      else bus.pendingEvents agentId := by
  have hFold :
      (bus.subscriptions.entries.foldl (deliver event)
        bus.mailboxes).get? agentId =
      if (bus.subscriptions.get? agentId).any (wants · event) then
        some (pushEvent (bus.pendingEvents agentId) event)
      else bus.mailboxes.get? agentId :=
    get?_foldl_deliver event bus.subscriptions.nodupKeys _
  unfold publish asksFor
  cases hClosed : bus.closed with
  | true => simp
  | false =>
    simp only [Bool.false_eq_true, if_false, Bool.not_false, Bool.true_and]
    rw [pendingEvents, hFold]
    split <;> rfl

theorem pendingEvents_subscribe
    (other : String) (eventTypes : Option (List String)) :
    (bus.subscribe other eventTypes).pendingEvents agentId =
      bus.pendingEvents agentId := by
  unfold LocalEventBus.subscribe pendingEvents
  dsimp only
  split
  · rfl
  · rw [Dict.get?_insert]
    split <;> simp_all

theorem pendingEvents_remove (other : String) :
    ((bus.mailboxes.remove other).get? agentId).getD [] =
      if agentId = other then [] else bus.pendingEvents agentId := by
  rw [Dict.get?_remove, pendingEvents]
  split <;> rfl

theorem pushEvent_sublist
    (mailbox : List BusEvent) (event : BusEvent) :
    (pushEvent mailbox event).Sublist (mailbox ++ [event]) := by
  unfold pushEvent
  split
  · exact (List.drop_sublist _ _).append_right _
  · exact List.Sublist.refl _

/-
  From any bus: what an agent gets was pending or is sent to
  it, in that order and none twice; it gets all when it stays
  and its mailbox has room.
-/
theorem received_in_order
    (bus : LocalEventBus) (agentId : String) (steps : List BusStep) :
    (received agentId bus steps).Sublist
      (bus.pendingEvents agentId ++ sent agentId bus steps) ∧
    (Stays agentId steps →
      (bus.pendingEvents agentId ++
        sent agentId bus steps).length ≤ maxMailboxSize →
      received agentId bus steps =
        bus.pendingEvents agentId ++ sent agentId bus steps) := by
  induction steps generalizing bus with
  | nil => simp [received, sent]
  | cons step steps ih =>
    have hNext := ih (bus.step step)
    have hRest : Stays agentId (step :: steps) → Stays agentId steps :=
      fun hStays s hMem => hStays s (List.mem_cons_of_mem _ hMem)
    cases step with
    | publish event =>
      simp only [received, sent, LocalEventBus.step,
        pendingEvents_publish] at hNext ⊢
      by_cases hAsks : bus.asksFor agentId event = true
      · simp only [hAsks, if_true] at hNext ⊢
        rw [← List.append_assoc]
        refine ⟨hNext.1.trans ((pushEvent_sublist _ _).append_right _), ?_⟩
        intro hStays hRoom
        rw [pushEvent, if_neg (by simp at hRoom; omega)] at hNext
        exact hNext.2 (hRest hStays) hRoom
      · simp only [hAsks] at hNext ⊢
        exact ⟨hNext.1, fun hStays => hNext.2 (hRest hStays)⟩
    | subscribe other eventTypes =>
      simp only [received, sent, LocalEventBus.step,
        pendingEvents_subscribe] at hNext ⊢
      exact ⟨hNext.1, fun hStays => hNext.2 (hRest hStays)⟩
    | unsubscribe other =>
      have hLeft : (bus.unsubscribe other).pendingEvents agentId = _ :=
        pendingEvents_remove other
      simp only [received, sent, LocalEventBus.step, hLeft] at hNext ⊢
      by_cases hOther : agentId = other
      · rw [if_pos hOther] at hNext
        refine ⟨hNext.1.trans (List.sublist_append_right _ _), ?_⟩
        intro hStays
        exact absurd (by rw [hOther]) (hStays _ List.mem_cons_self).2
      · rw [if_neg hOther] at hNext
        exact ⟨hNext.1, fun hStays => hNext.2 (hRest hStays)⟩
    | poll other =>
      have hLeft : (bus.poll other).2.pendingEvents agentId = _ :=
        pendingEvents_remove other
      simp only [received, sent, LocalEventBus.step, hLeft] at hNext ⊢
      by_cases hOther : agentId = other
      · rw [if_pos hOther] at hNext ⊢
        subst hOther
        refine ⟨hNext.1.append_left _, ?_⟩
        intro hStays hRoom
        rw [hNext.2 (hRest hStays) (by simp at hRoom ⊢; omega)]
        rfl
      · rw [if_neg hOther] at hNext ⊢
        exact ⟨hNext.1, fun hStays => hNext.2 (hRest hStays)⟩
    | close =>
      refine ⟨hNext.1.trans (List.sublist_append_right _ _), ?_⟩
      intro hStays
      exact absurd rfl (hStays _ List.mem_cons_self).1

end LocalEventBus

-- Relays Between Hives

/- A hive escalates to its parent, broadcasts to its children. -/
inductive Relay where
| escalation
| broadcast

def Relay.tag : Relay → String
| .escalation => "escalation:"
| .broadcast => "broadcast:"

/- A tag says that another hive sent the fact. -/
def isRelayed (fact : HiveFact) : Bool :=
  fact.tags.any fun tag =>
    Relay.escalation.tag.toList.isPrefixOf tag.toList ||
      Relay.broadcast.tag.toList.isPrefixOf tag.toList

/- What the graph of a hive holds after one more fact. -/
def storeFact
    (facts : List HiveFact) (stamp : Stamp) (concept content : String)
    (confidence : Float) (sourceId : String) (tags : List String) :
    Except HiveError (List HiveFact) :=
  if ValidConfidence confidence then
    .ok (facts ++
      [{ factId := stamp.id, concept, content, confidence, sourceId,
         tags, createdAt := stamp.now, status := "promoted",
         metadata := .empty }])
  else .error (.invalidConfidence confidence)

/- Hives by name: their facts, and those callers stored. -/
structure Federation where
  facts : String → List HiveFact
  stored : String → List HiveFact

inductive FederationStep where
| store (hive : String) (stamp : Stamp) (concept content : String)
    (confidence : Float) (sourceId : String) (tags : List String)
| relay (relay : Relay) (hive factId : String)
    (targets : List (String × Stamp))

namespace Federation

/- One target stores the fact; it may refuse its confidence. -/
def send
    (relay : Relay) (hive : String) (fact : HiveFact)
    (facts : String → List HiveFact) (target : String × Stamp) :
    String → List HiveFact :=
  match storeFact (facts target.1) target.2 fact.concept fact.content
    fact.confidence fact.sourceId
    (fact.tags ++ [relay.tag ++ hive]) with
  | .ok held => Function.update facts target.1 held
  | .error _ => facts

def step (f : Federation) : FederationStep → Federation
| .store hive stamp concept content confidence sourceId tags =>
  match storeFact (f.facts hive) stamp concept content confidence
    sourceId tags with
  | .ok held =>
    { facts := Function.update f.facts hive held
      stored := Function.update f.stored hive
        (f.stored hive ++ held.drop (f.facts hive).length) }
  | .error _ => f
| .relay relay hive factId targets =>
  match (f.facts hive).find? (·.factId = factId) with
  | none => f
  | some fact =>
    if isRelayed fact then f
    else { f with facts := targets.foldl (send relay hive fact) f.facts }

/- The fact is a copy of one that was stored and not relayed. -/
def OneHop (f : Federation) (fact : HiveFact) : Prop :=
  ∃ hive, ∃ origin ∈ f.stored hive, isRelayed origin = false ∧
    ∃ relay : Relay, fact.concept = origin.concept ∧
      fact.content = origin.content ∧
      fact.confidence = origin.confidence ∧
      fact.sourceId = origin.sourceId ∧
      fact.tags = origin.tags ++ [relay.tag ++ hive]

def Near (f : Federation) : Prop :=
  ∀ hive, ∀ fact ∈ f.facts hive, fact ∈ f.stored hive ∨ f.OneHop fact

theorem OneHop.isRelayed {f : Federation} {fact : HiveFact}
    (hHop : f.OneHop fact) : Hive.isRelayed fact = true := by
  rcases hHop with ⟨hive, origin, _, _, relay, _, _, _, _, hTags⟩
  rw [Hive.isRelayed, hTags, List.any_append]
  cases relay <;> simp [List.isPrefixOf_iff_prefix]

/- One fact more at a hive, stored there or one hop from it. -/
theorem Near.append
    {f g : Federation} (hNear : f.Near) {hive : String}
    {fact : HiveFact}
    (hFacts : g.facts = Function.update f.facts hive
      (f.facts hive ++ [fact]))
    (hStored : ∀ h, ∀ old ∈ f.stored h, old ∈ g.stored h)
    (hFact : fact ∈ g.stored hive ∨ g.OneHop fact) :
    g.Near := by
  intro other held hMem
  have hOld : ∀ old ∈ f.facts other,
      old ∈ g.stored other ∨ g.OneHop old := by
    intro old hOld
    rcases hNear other old hOld with hHere | ⟨h, origin, hOrigin, hHop⟩
    · exact Or.inl (hStored _ _ hHere)
    · exact Or.inr ⟨h, origin, hStored _ _ hOrigin, hHop⟩
  rw [hFacts] at hMem
  by_cases hOther : other = hive
  · subst hOther
    rw [Function.update_self, List.mem_append,
      List.mem_singleton] at hMem
    rcases hMem with hMem | rfl
    · exact hOld held hMem
    · exact hFact
  · rw [Function.update_of_ne hOther] at hMem
    exact hOld held hMem

theorem Near.send
    {f : Federation} (hNear : f.Near) {relay : Relay} {hive : String}
    {fact : HiveFact} (hMem : fact ∈ f.stored hive)
    (hOwn : isRelayed fact = false) (target : String × Stamp) :
    Near { f with facts := send relay hive fact f.facts target } := by
  unfold Federation.send storeFact
  by_cases hValid : ValidConfidence fact.confidence
  · rw [if_pos hValid]
    exact hNear.append rfl (fun _ _ hOld => hOld) (Or.inr
      ⟨hive, fact, hMem, hOwn, relay, rfl, rfl, rfl, rfl, rfl⟩)
  · rw [if_neg hValid]
    exact hNear

theorem Near.step
    {f : Federation} (hNear : f.Near) (step : FederationStep) :
    (f.step step).Near := by
  cases step with
  | store hive stamp concept content confidence sourceId tags =>
    simp only [Federation.step, storeFact]
    by_cases hValid : ValidConfidence confidence
    · rw [if_pos hValid]
      refine hNear.append rfl (fun h old hOld => ?_) (Or.inl ?_)
      · by_cases hHive : h = hive
        · subst hHive
          simp [hOld]
        · simpa [Function.update_of_ne hHive] using hOld
      · simp
    · rw [if_neg hValid]
      exact hNear
  | relay relay hive factId targets =>
    simp only [Federation.step]
    split
    · exact hNear
    · next fact hFind =>
      split
      · exact hNear
      · next hOwn =>
        have hMem : fact ∈ f.stored hive :=
          (hNear hive fact (List.mem_of_find?_eq_some hFind)).resolve_right
            fun hHop => hOwn hHop.isRelayed
        clear hFind
        induction targets generalizing f with
        | nil => exact hNear
        | cons target targets ih =>
          exact ih (hNear.send hMem (by simpa using hOwn) target) hMem

/-
  Over every run of stores, escalations and broadcasts a fact
  is where it was stored, or one hop from there: nothing that
  was relayed is relayed again.
-/
theorem relayed_once
    {f : Federation}
    (hRun : Reaches Federation.step (fun _ _ => True)
      ⟨fun _ => [], fun _ => []⟩ f) :
    ∀ hive, ∀ fact ∈ f.facts hive,
      fact ∈ f.stored hive ∨ f.OneHop fact := by
  refine hRun.invariant Near (fun f step hNear _ => hNear.step step) ?_
  simp [Near]

def oneEscalation : List FederationStep :=
  [.store "child" ⟨"f1", 0⟩ "c" "text" 0.5 "a" [],
    .relay .escalation "child" "f1" [("root", ⟨"f2", 1⟩)]]

/- The root holds what its child escalated, one hop away. -/
theorem relayed_once_of_escalation :
    ∃ f : Federation, ∃ fact ∈ f.facts "root", f.OneHop fact := by
  have hNear := relayed_once
    (Reaches.foldl oneEscalation (fun _ _ _ => trivial) _) "root"
  have hFacts : 0 < ((oneEscalation.foldl Federation.step
      ⟨fun _ => [], fun _ => []⟩).facts "root").length := by
    decide +kernel
  have hStored : ((oneEscalation.foldl Federation.step
      ⟨fun _ => [], fun _ => []⟩).stored "root").length = 0 := by
    decide +kernel
  rcases List.exists_mem_of_length_pos hFacts with ⟨fact, hMem⟩
  refine ⟨_, fact, hMem, (hNear fact hMem).resolve_left ?_⟩
  rw [List.length_eq_zero_iff.mp hStored]
  exact List.not_mem_nil

end Federation

end Hive
