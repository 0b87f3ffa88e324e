import ContractNegotiation.Identifier
import ContractNegotiation.Simulation.Basic

namespace ContractNegotiation.Simulation

namespace World

variable {n : Nat} (setup : Setup n)

def connector (i : Fin n) : Connector := setup.roster.connector i

def manager (i : Fin n) (role : Role) : Manager := (connector setup i).manager role

def position? (name : String) : Option (Fin n) :=
  (List.finRange n).find? fun i => (setup.part i).name = name

def isIdle (w : World n) (i : Fin n) (role : Role) : Bool :=
  let site := w.network.site i
  site.store.records.all fun r =>
    r.role ≠ some role ||
      (!((State.processable role).map State.code).contains r.stateCode &&
        !(site.workload role).queue.hasPending r.id)

def runUntilIdle (transport : Transport (World n)) (i : Fin n) (role : Role) :
    Nat → Action (World n) Unit
  | 0 => pure ()
  | rounds + 1 => do
    let w ← get
    if isIdle w i role then pure ()
    else do
      let _ ← (manager setup i role).runGuarded (environment setup i) transport
      runUntilIdle transport i role rounds

def maxRounds : Nat := 100000

def performStore (i : Fin n) (step : StoreStep) : Action (World n) Reply := fun w =>
  let (reply, store) := step.perform (w.network.site i).store w.network.now
  .ok reply { w with network := w.network.setStore i store }

def receive (i : Fin n) (m : RemoteMessage) (token : ClaimToken) : Action (World n) Reply := do
  match ← Service.receive (connector setup i) (environment setup i) m token with
  | some result => pure (.outcome result)
  | none => pure .done

def notify (i : Fin n) (m : RemoteMessage) (token : ClaimToken) : Action (World n) Reply :=
  match m with
  | .event m => .outcome <$> Service.finalized (connector setup i) (environment setup i) m
  | m => receive setup i m token

def performWith (transport : Fin n → Transport (World n)) : Fin n → Step → Action (World n) Reply
  | i, .at name step => performWith transport ((position? setup name).getD i) step
  | _, .setNow now => do
    modify fun w => { w with network := { w.network with now } }
    pure .done
  | _, .advance ms => do
    passTime ms
    pure .done
  | i, .store step => performStore i step
  | i, .run role =>
    .count <$> (manager setup i role).runOnce (environment setup i) (transport i)
  | i, .background role => do
    (manager setup i role).start (environment setup i)
    runUntilIdle setup (transport i) i role maxRounds
    (manager setup i role).stop (environment setup i)
    pure (.flag true)
  | i, .enqueue role command => do
    (manager setup i role).enqueue (environment setup i) command
    pure .done
  | i, .hasPending role id => .flag <$> (manager setup i role).hasPending (environment setup i) id
  | i, .isRunning role => do
    let w ← (environment setup i).workload role
    pure (.flag w.running)
  | i, .terminated role correlationId reason =>
    .outcome <$> (manager setup i role).terminated (environment setup i) correlationId reason
  | i, .get id => .record <$> Service.get (environment setup i) id
  | i, .state id => do
    let s ← Service.state (environment setup i) id
    pure (.text (s.map State.name))
  | i, .agreementOf id => .agreement <$> Service.agreementOf (environment setup i) id
  | i, .findAgreement id => .agreement <$> Service.findAgreement (environment setup i) id
  | i, .query q => do
    let result ← Service.query (environment setup i) q
    pure (.found (result.map (·.map Negotiation.id)))
  | i, .initiate request =>
    .outcome <$> Service.initiate (connector setup i) (environment setup i) request
  | i, .cancel id => .outcome <$> Service.cancel (connector setup i) (environment setup i) id
  | i, .decline id reason =>
    .outcome <$> Service.decline (connector setup i) (environment setup i) id reason
  | i, .counterOffer id offer =>
    .outcome <$> Service.counterOffer (connector setup i) (environment setup i) id offer
  | i, .notify m token => notify setup i m token
  | i, .failCommit fault => do
    updateRig i fun r => { r with commitFault := fault }
    pure .done
  | i, .register address => do
    ofNetwork (Network.register (address.getD (connector setup i).address) i)
    pure .done
  | i, .unregister address => do
    ofNetwork (Network.unregister (address.getD (connector setup i).address))
    pure .done
  | _, .registered address => do
    let w ← get
    pure (.text ((w.network.addresses.get? address).map fun i => (setup.part i).name))
  | i, .send m => .dispatched <$> transport i m
  | i, .start => do
    ofNetwork (Network.start setup.roster i)
    pure .done
  | i, .stop => do
    ofNetwork (Network.stop setup.roster i)
    pure .done
  | i, .script entries => do
    updateRig i fun r => { r with script := r.script ++ entries }
    pure .done
  | i, .outage o => do
    updateRig i fun r => { r with outages := r.outages ++ [o] }
    pure .done

def settled (x : Action (World n) Reply) : Action (World n) Reply := do
  match ← Action.attempt x with
  | .ok reply => pure reply
  | .error fault => pure (.raised fault)

def perform (start : Fin n) : Nat → Fin n → Step → Action (World n) Reply
  | 0, i, step => settled (performWith setup (unscripted setup) i step)
  | depth + 1, i, step =>
    settled (performWith setup (send setup (·.mapM (perform start depth start))) i step)

end World

structure Footprint where
  reply : Reply
  changed : List (String × List Negotiation)
  sent : List (String × List Delivery)
  marks : List (String × List Mark)
  notices : List Notice

namespace World

variable {n : Nat} (setup : Setup n)

def cleared (w : World n) : World n where
  network := { w.network with notices := [] }
  rigs := w.rigs.map fun r => { r with sent := [], marks := [] }

def changedRecords (before after : List Negotiation) : List Negotiation :=
  (after.filter fun r => !before.contains r).mergeSort Query.Spec.precedes

def sentInOrder (workers : Nat) (sent : List Delivery) : List Delivery :=
  if workers ≤ 1 then sent
  else sent.mergeSort fun a b => a.message.processId ≤ b.message.processId

def byName {α : Type} (view : Fin n → List α) : List (String × List α) :=
  ((List.finRange n).map fun i => ((setup.part i).name, view i)).filter fun x => !x.2.isEmpty

def footprint (before after : World n) (reply : Reply) : Footprint where
  reply := reply
  changed := byName setup fun i =>
    changedRecords (before.network.site i).store.records (after.network.site i).store.records
  sent := byName setup fun i =>
    sentInOrder (connector setup i).consumer.options.workers (after.rig i).sent
  marks := byName setup fun i => (after.rig i).marks
  notices := after.network.notices

def runSteps (start : Fin n) (depth : Nat) : List Step → World n → List Footprint
  | [], _ => []
  | step :: steps, w =>
    let before := w.cleared
    match perform setup start depth start step before with
    | .ok reply after => footprint setup before after reply :: runSteps start depth steps after
    | .error fault after =>
      footprint setup before after (.raised fault) :: runSteps start depth steps after

end World

structure Plan where
  part : Part := {}
  participantId : String
  address : String
  leaseDuration : Int := 60000
  registered : Bool := true
  options : Options := {}
  settings : Option Settings := none
  deriving Inhabited

namespace Plan

def filledSettings (p : Plan) (s : Settings) : Settings :=
  Settings.withDefaults { s with
    connector := some { s.connectorOrDefault with
      participantId := p.participantId, address := p.address } }

def connector (p : Plan) (id id' : String) : Connector :=
  match p.settings with
  | some s => .ofSettings (p.filledSettings s) id id'
  | none =>
    .create p.participantId p.address
      { p.options with participantId := p.participantId, callbackAddress := p.address } id id'

def site (p : Plan) : Site where
  store := match p.settings with
    | some s => { leaseDuration := (p.filledSettings s).managerOrDefault.leaseDurationMs.toNat }
    | none => { leaseDuration := p.leaseDuration }

def effectivePart (p : Plan) : Part :=
  if p.settings.isSome then { p.part with wiring := .direct } else p.part

end Plan

def ids (k : Nat) : String := Identifier.numbered (k + 1)

def setupOf (plans : List Plan) : Setup plans.length where
  roster := {
    connectors := Vector.ofFn fun i => (plans.get i).connector (ids (2 * i)) (ids (2 * i + 1))
    ids }
  parts := Vector.ofFn fun i => (plans.get i).effectivePart

def worldOf (plans : List Plan) (now : Instant) : World plans.length where
  network := {
    sites := Vector.ofFn fun i => (plans.get i).site
    addresses := (List.finRange plans.length).foldl (fun addresses i =>
      if (plans.get i).registered then addresses.insert (plans.get i).address i else addresses) {}
    now
    issued := 2 * plans.length }
  rigs := Vector.ofFn fun _ => {}

def run (plans : List Plan) (now : Instant) (steps : List Step) : List Footprint :=
  if h : 0 < plans.length then
    World.runSteps (setupOf plans) ⟨0, h⟩ (entriesOfSteps steps + 1) steps (worldOf plans now)
  else []

end ContractNegotiation.Simulation
