import Dtn2.Prophet.AckSet
import Dtn2.Prophet.Serialize

/-!
# Encounters

An `Encounter` is one end of a session of two Prophet routers. Hellos open the session; then the
initiator sends its dictionary and routing information base, the listener answers with an offer, and
the initiator requests what it lacks of it. When nothing is left to request the two change places.
Every handler reports whether the session goes on.

The clock, the node table, the repository and the bundle layer are asked for what they hold when an
event is handled; they are the environment of the event.
-/

namespace Dtn2

namespace Prophet

/-! ## Dictionaries for sending -/

namespace Dictionary

/-- The loop of `insert`: the next string id that `assign` takes. There are fewer than 65536. -/
def insertLoop (d : Dictionary) (destId : Bytes) : Nat → UInt16 → Dictionary × UInt16
  | 0, _ => (d, invalidSid)
  | fuel + 1, sid =>
      match d.assign destId sid with
      | some d' => (d', sid)
      | none =>
          if sid + 1 = invalidSid then (d, invalidSid) else insertLoop d destId fuel (sid + 1)

def insert (d : Dictionary) (destId : Bytes) : Dictionary × UInt16 :=
  if destId = [] then (d, invalidSid)
  else if d.find destId ≠ invalidSid then (d, invalidSid)
  else if UInt16.ofNat (d.rribd.length + 2) = invalidSid then (d, invalidSid)
  else insertLoop d destId 65536 (UInt16.ofNat (d.rribd.length + 2))

/-- `RIBDTLV::ribd`: the roles are only filled in where the dictionary has none. -/
def withRoles (d : Dictionary) (sender receiver : Bytes) : Dictionary :=
  let d := (d.assign sender 0).getD d
  (d.assign receiver 1).getD d

end Dictionary

/-! ## The environment of an event -/

/-- `ProphetParams`, as far as encounters read them. -/
structure Params where
  helloInterval : UInt8
  helloDead : UInt32
  relayNode : Bool
  internetGw : Bool

/-- An entry of the node table; the delivery predictability is scaled to eight bits. -/
structure NodeEntry where
  destId : Bytes
  pvalue : UInt8
  relay : Bool
  custody : Bool
  internetGw : Bool

/-- What an encounter finds around it when it handles an event. The repository gives its bundles in
some order for each offer, `offered` and `newAcks` are what the decider and the link leave to offer,
and the last two fields say which sends succeed. -/
structure Env where
  params : Params
  core : BundleCore
  now : Int
  nodes : List NodeEntry
  bundles : List Bundle
  acks : List Ack
  order : BundleTLVEntry → List Bundle → List Bundle
  order_perm : ∀ e l, (order e l).Perm l
  offered : List Bundle
  newAcks : List Ack
  sendMessage : Message → Bool
  sendBundle : Bundle → Bool

/-- An environment with nothing stored, in which all sends succeed. -/
def Env.plain : Env where
  params := ⟨20, 20, true, false⟩
  core := .plain
  now := 0
  nodes := []
  bundles := []
  acks := []
  order _ l := l
  order_perm _ l := List.Perm.refl l
  offered := []
  newAcks := []
  sendMessage _ := true
  sendBundle _ := true

namespace TLVCreator

/-- One round of the loop of `ribd`. -/
def ribdEntry (core : BundleCore) (d : Dictionary) (n : NodeEntry) : Option Dictionary :=
  let eid := core.getRoute n.destId
  let r := d.insert eid
  if r.2 = Dictionary.invalidSid ∧ r.1.find eid = Dictionary.invalidSid then none else some r.1

def ribd (env : Env) (sender receiver : Bytes) : Option Dictionary :=
  env.nodes.foldlM (ribdEntry env.core) (.new sender receiver)

/-- The loop of `rib`. -/
def ribNodes (d : Dictionary) : List NodeEntry → Option (List RIBNode)
  | [] => some []
  | n :: rest =>
      if n.destId = d.findId 0 ∨ n.destId = d.findId 1 then ribNodes d rest
      else if d.find n.destId = Dictionary.invalidSid then none
      else
        (ribNodes d rest).map fun l =>
          ⟨d.find n.destId, n.pvalue, n.relay, n.custody, n.internetGw⟩ :: l

def rib (env : Env) (d : Dictionary) : Option Body :=
  (ribNodes d env.nodes).map fun l =>
    .rib l env.params.relayNode env.core.custodyAccepted env.params.internetGw

/-- `response`: the requests that are made, together with those that are still open. -/
def response (env : Env) (offers : BundleOfferList) (list : BundleResponseList) (d : Dictionary) :
    BundleResponseList :=
  (offers.list.foldl (fun s e => respondTo env.core d e { s with bundles := env.order e s.bundles })
    ⟨env.bundles, env.acks, list, []⟩).list

end TLVCreator

/-! ## The state of an encounter -/

/-- `state_t`. -/
inductive State where
  | undefinedState
  | waitNb
  | synsent
  | synrcvd
  | estab
  | waitDict
  | waitRib
  | offer
  | createDr
  | sendDr
  | request
  | waitInfo
deriving DecidableEq, Repr

/-- What an end has taken from its peer and given to the bundle layer. A TLV that is received comes
with the message that it was in. -/
inductive Event where
  | received (m : Message) (body : Body)
  | sent (m : Message)
  | bundle (b : Bundle)
deriving DecidableEq

/-- The names of both ends: the endpoint ids and the ids that messages are addressed with. -/
structure Peers where
  localEid : Bytes
  remoteEid : Bytes
  prophetId : Bytes
  remoteProphetId : Bytes
deriving DecidableEq, Repr

/-- `Encounter`. The alarm is not modelled: a timeout may come at any time. `log` has no counterpart
in the source. -/
structure Encounter where
  peers : Peers
  localInstance : UInt16
  remoteInstance : UInt16
  tid : UInt32
  nextTid : UInt32
  timeout : UInt32
  synsender : Bool
  state : State
  synsent : Bool
  estab : Bool
  gone : Bool
  localRibd : Dictionary
  remoteRibd : Dictionary
  remoteOffers : BundleOfferList
  localResponse : BundleResponseList
  helloRate : UInt32
  dataSent : Int
  dataRcvd : Int
  log : List Event

namespace Encounter

def setState (e : Encounter) (s : State) : Encounter := { e with state := s }

/-- `NEXT_TID`, which leaves out zero. -/
def takeTid (e : Encounter) : Encounter :=
  { e with nextTid := if e.nextTid + 1 = 0 then e.nextTid + 2 else e.nextTid + 1 }

/-- The sender of an exchange, as `ASSIGN_ROLES` has it. -/
def roleSender (e : Encounter) : Bytes :=
  if e.synsender then e.peers.localEid else e.peers.remoteEid

def roleReceiver (e : Encounter) : Bytes :=
  if e.synsender then e.peers.remoteEid else e.peers.localEid

/-! ## Sending -/

def sendTlv (env : Env) (m : Message) (e : Encounter) : Encounter × Bool :=
  if env.sendMessage m then ({ e with dataSent := env.now, log := e.log ++ [.sent m] }, true)
  else (e, false)

/-- `PROPHET_TLV` with the TLVs added. -/
def message (e : Encounter) (hr : HeaderResult) (tid : UInt32) (bodies : List Body) : Message :=
  ProphetTLV.withTlvs (ProphetTLV.new e.peers.prophetId e.peers.remoteProphetId hr e.localInstance
    e.remoteInstance tid) bodies

/-- A message is made and sent. It has the transaction id that is given, or else the next one. -/
def sendBodies (env : Env) (hr : HeaderResult) (tid : UInt32) (bodies : List Body) (e : Encounter) :
    Encounter × Bool :=
  if tid = 0 then sendTlv env (e.message hr e.takeTid.nextTid bodies) e.takeTid
  else sendTlv env (e.message hr tid bodies) e

/-- The flow control of `send_hello`. -/
def suppressed (env : Env) (hf : HelloHf) (e : Encounter) : Bool :=
  decide (e.state ≠ .waitNb) && decide (0 < e.helloRate.toNat) && decide (hf ≠ .rstack) &&
    decide (env.now - e.dataSent < (e.timeout / e.helloRate).toNat)

def sendHello (env : Env) (hf : HelloHf) (hr : HeaderResult) (tid : UInt32) (e : Encounter) :
    Encounter × Bool :=
  if suppressed env hf e then (e, true)
  else
    let r := e.sendBodies env hr tid [.hello hf env.params.helloInterval e.peers.localEid]
    if r.2 = true ∧ (hf = .syn ∨ hf = .synack) then ({ r.1 with synsent := true }, true) else r

def sendAck (env : Env) (e : Encounter) : Encounter × Bool :=
  e.sendHello env .ack .noSuccessAck e.tid

/-- `SEND_SYN(NEXT_TID)`. -/
def sendSyn (env : Env) (e : Encounter) : Encounter × Bool :=
  e.takeTid.sendHello env .syn .noSuccessAck e.takeTid.nextTid

def sendSynack (env : Env) (e : Encounter) : Encounter × Bool :=
  e.sendHello env .synack .noSuccessAck e.tid

def sendRstack (env : Env) (e : Encounter) : Encounter × Bool :=
  e.sendHello env .rstack .failure e.tid

def sendDictionaryRib (env : Env) (e : Encounter) : Encounter × Bool :=
  if e.state ≠ .createDr ∧ e.state ≠ .sendDr then (e, false)
  else
    match TLVCreator.ribd env e.roleSender e.roleReceiver with
    | none => (e, false)
    | some d =>
        let d := d.withRoles e.roleSender e.roleReceiver
        let e := { e with localRibd := d }
        match TLVCreator.rib env d with
        | none => (e.takeTid, false)
        | some rib => e.sendBodies env .noSuccessAck 0 [.ribd d, rib]

/-- `SET_STATE(CREATE_DR)`, and `SEND_DR` once the dictionary is sent. -/
def createDr (env : Env) (e : Encounter) : Encounter × Bool :=
  let r := (e.setState .createDr).sendDictionaryRib env
  if r.2 then (r.1.setState .sendDr, true) else r

def sendOffer (env : Env) (e : Encounter) : Encounter × Bool :=
  e.sendBodies env .noSuccessAck 0
    [.offer (getBundleOffer env.core e.remoteRibd env.offered env.newAcks)]

/-- `send_response`. The list of requests goes on growing. -/
def sendResponse (env : Env) (e : Encounter) : Encounter × Bool :=
  let e := { e with localResponse :=
    TLVCreator.response env e.remoteOffers e.localResponse e.localRibd }
  let r := e.sendBodies env .noSuccessAck 0 [.response e.localResponse]
  if e.localResponse.list = [] ∧ r.2 = true then (r.1.setState .waitInfo, true) else r

/-! ## The handlers of TLVs -/

/-- A hello may lower the timeout until the session is established. -/
def negotiate (env : Env) (timer : UInt8) (e : Encounter) : Encounter :=
  if e.estab = false then
    { e with timeout := (min env.params.helloInterval timer).toUInt32 * 100 }
  else e

/-- The case `SYN` of `handle_hello_tlv`. -/
def handleSyn (env : Env) (m : Message) (e : Encounter) : Encounter × Bool :=
  if e.estab then { e with helloRate := 2 }.sendAck env
  else if e.state = .synsent ∨ e.state = .synrcvd ∨ e.state = .waitNb then
    let r := { e with remoteInstance := m.senderInstance }.sendSynack env
    (r.1.setState .synrcvd, r.2)
  else (e, true)

/-- The case `SYNACK`: the states `SYNSENT` and `SYNRCVD` do the same. -/
def handleSynack (env : Env) (m : Message) (e : Encounter) : Encounter × Bool :=
  if e.estab then { e with helloRate := 2 }.sendAck env
  else if e.state = .synsent ∨ e.state = .synrcvd then
    if e.localInstance = m.receiverInstance then
      let r := { e with helloRate := 0, remoteInstance := m.senderInstance }.sendAck env
      if r.2 then ({ r.1 with state := .estab, estab := true }, true) else r
    else e.sendRstack env
  else (e, true)

/-- The case `ACK`; `known` is `hello_b && hello_c`. -/
def handleAck (env : Env) (known : Bool) (e : Encounter) : Encounter × Bool :=
  if e.estab = true ∧ known = false then e.sendRstack env
  else
    match e.state with
    | .synsent => e.sendRstack env
    | .synrcvd => if known then ({ e with state := .estab, estab := true }, true) else e.sendRstack env
    | .waitRib | .offer => (e.setState .waitDict, true)
    | .request => e.createDr env
    | .waitInfo =>
        if env.now - e.dataSent > env.params.helloInterval.toNat then
          if e.synsender then e.createDr env else (e.setState .waitDict, true)
        else (e, true)
    | _ => (e, true)

def handleHello (env : Env) (m : Message) (hf : HelloHf) (timer : UInt8) (e : Encounter) :
    Encounter × Bool :=
  let helloA := decide (e.remoteInstance = m.senderInstance)
  let helloB := helloA && decide (e.peers.remoteProphetId = m.src)
  let helloC := decide (e.localInstance = m.receiverInstance)
  let e := e.negotiate env timer
  match hf with
  | .syn => e.handleSyn env m
  | .synack => e.handleSynack env m
  | .ack => e.handleAck env (helloB && helloC)
  | .rstack => (e, !(helloA && helloC && !e.synsent))
  | _ => (e, true)

def takeRibd (d : Dictionary) (e : Encounter) : Encounter :=
  { e with remoteRibd := d.withRoles e.roleSender e.roleReceiver, state := .waitRib }

/-- `handle_ribd_tlv`. In `WAIT_INFO` the case falls through. -/
def handleRibd (env : Env) (d : Dictionary) (e : Encounter) : Encounter × Bool :=
  match e.state with
  | .waitInfo =>
      if env.now - e.dataSent > env.params.helloInterval.toNat ∧ e.synsender = true then (e, false)
      else (e.takeRibd d, true)
  | .waitDict | .waitRib => (e.takeRibd d, true)
  | .offer => e.sendOffer env
  | _ => (e, false)

/-- `handle_rib_tlv`. What it does to the node tables is seen in the environment of what follows. -/
def handleRib (env : Env) (e : Encounter) : Encounter × Bool :=
  if e.state = .waitRib then (e.setState .offer).sendOffer env else (e, false)

def handleOffer (env : Env) (list : BundleOfferList) (e : Encounter) : Encounter × Bool :=
  if e.state = .sendDr ∨ e.state = .request then
    { e with remoteOffers := list, state := .request }.sendResponse env
  else if e.state = .waitInfo then (e, true)
  else (e, false)

def sendRequested (env : Env) (e : Encounter) (r : BundleTLVEntry) : Encounter :=
  match findBundle env.core env.bundles (e.remoteRibd.findId r.sid) r.creationTs r.seqno with
  | some b =>
      if env.sendBundle b then { e with dataSent := env.now, log := e.log ++ [.bundle b] } else e
  | none => e

def handleResponse (env : Env) (list : BundleResponseList) (e : Encounter) : Encounter × Bool :=
  match e.state with
  | .waitRib => (e.setState .waitDict).sendAck env
  | .offer =>
      if list.list = [] then (e.setState .waitInfo, true)
      else (list.list.foldl (sendRequested env) e, true)
  | _ => (e, false)

/-- What `dispatch_tlv` does with other TLVs before the session is established. -/
def remind (env : Env) (e : Encounter) : Encounter × Bool :=
  let e := { e with helloRate := 2 }
  match e.state with
  | .synsent => e.sendSyn env
  | .synrcvd => e.sendSynack env
  | _ => (e, true)

def dispatchTlv (env : Env) (m : Message) (body : Body) (e : Encounter) : Encounter × Bool :=
  let e : Encounter := { e with log := e.log ++ [.received m body] }
  match body with
  | .hello hf timer _ =>
      let r := e.handleHello env m hf timer
      if r.2 = true ∧ e.estab = false ∧ r.1.estab = true then
        if r.1.synsender then r.1.createDr env else (r.1.setState .waitDict, true)
      else r
  | .ribd d => if e.estab then e.handleRibd env d else e.remind env
  | .rib .. => if e.estab then e.handleRib env else e.remind env
  | .offer list =>
      if e.estab then
        let r := e.handleOffer env list
        if r.2 = true ∧ r.1.synsender = true ∧ r.1.state = State.waitInfo then
          (r.1.setState .waitDict, true)
        else r
      else e.remind env
  | .response list =>
      if e.estab then
        let r := e.handleResponse env list
        if r.2 = true ∧ r.1.synsender = false ∧ r.1.state = State.waitInfo then r.1.createDr env else r
      else e.remind env

/-- The loop of `receive_tlv`. The environment may change from one TLV to the next. -/
def dispatchAll (m : Message) : (Nat → Env) → List Body → Encounter → Encounter × Bool
  | _, [], e => (e, true)
  | env, body :: rest, e =>
      let r := e.dispatchTlv (env 0) m body
      if r.2 then r.1.dispatchAll m (fun i => env (i + 1)) rest else r

/-! ## Events -/

def receiveTlv (env : Nat → Env) (m : Message) (e : Encounter) : Encounter × Bool :=
  if e.gone then (e, false)
  else
    let r := { e with dataRcvd := (env 0).now, tid := m.tid }.dispatchAll m env (m.list.map TLV.body)
    if r.2 then r else ({ r.1 with gone := true }, false)

def handleBundleReceived (env : Env) (b : Bundle) (e : Encounter) : Encounter :=
  if e.state ≠ .request then e
  else
    let sid := e.localRibd.find (env.core.getRoute (destinationId b))
    if sid = Dictionary.invalidSid then e
    else { e with
      localResponse := e.localResponse.removeEntry (creationTs b) (sequenceNum b) sid }

/-- The switch of `handle_timeout`. -/
def timeoutAction (env : Env) (e : Encounter) : Encounter × Bool :=
  match e.state with
  | .waitNb => (e, true)
  | .synsent => e.sendSyn env
  | .synrcvd => e.sendSynack env
  | .waitDict => e.sendAck env
  | .waitRib =>
      let r := e.sendAck env
      (r.1.setState .waitDict, r.2)
  | .offer => e.sendOffer env
  | .sendDr => e.sendDictionaryRib env
  | .request => e.sendResponse env
  | .waitInfo =>
      if env.now - e.dataRcvd >
          (env.params.helloDead * env.params.helloInterval.toUInt32 / 20).toNat then
        if e.synsender then e.createDr env else (e.setState .waitDict, true)
      else (e, true)
  | _ => (e, false)

/-- The peer has been silent for too long. -/
def silent (env : Env) (e : Encounter) : Bool :=
  decide (env.now - e.dataRcvd >
    (env.params.helloDead * env.params.helloInterval.toUInt32 / 10).toNat)

def handleTimeout (env : Env) (e : Encounter) : Encounter :=
  if e.gone then e
  else
    let r := e.timeoutAction env
    if r.2 = false ∨ r.1.silent env = true then { r.1 with gone := true } else r.1

def helloIntervalChanged (env : Env) (e : Encounter) : Encounter :=
  if e.gone then e else { e with timeout := env.params.helloInterval.toUInt32 * 100 }

/-- The fields that the constructor sets before it says hello. -/
def fresh (env : Env) (peers : Peers) (inst : UInt16) : Encounter :=
  { peers := peers
    localInstance := inst
    remoteInstance := 0
    tid := 0
    nextTid := 0
    timeout := env.params.helloInterval.toUInt32 * 100
    synsender := decide (peers.localEid < peers.remoteEid)
    state := .waitNb
    synsent := false
    estab := false
    gone := false
    localRibd := .empty
    remoteRibd := .empty
    remoteOffers := .empty
    localResponse := .empty
    helloRate := 0
    dataSent := env.now
    dataRcvd := env.now
    log := [] }

def new (env : Env) (peers : Peers) (inst : UInt16) : Encounter :=
  let e := fresh env peers inst
  if e.synsender then
    let r := e.sendHello env .syn .noSuccessAck 0
    if r.2 then r.1.setState .synsent else r.1
  else e

end Encounter

end Prophet

end Dtn2
