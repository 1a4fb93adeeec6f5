import AuroraRelay.CommsAgent

/-!
# The script of a command

What the command interpreter is for: each command has a short script of requests to
WARP, and the rest of the relay hears of the command once WARP has confirmed all of
them.  A monitor says this one call at a time; `parseJson_obeys` shows that the
interpreter keeps to it whatever WARP answers.
-/

namespace AuroraRelay.CommsAgent
open Interaction WarpProtocol

inductive Request
  | macAdd (bssid : Mac)
  | transmissionControl (bssid : Mac)
  | stationClear (bssid : Mac)
  | macRemove (bssid : Mac)
  | associate (bssid station : Mac)
  | disassociate (bssid station : Mac)
  deriving DecidableEq

def StationOp.request (op : StationOp) (bssid station : Mac) : Request :=
  match op with
  | .associate => .associate bssid station
  | .disassociate => .disassociate bssid station

def ControlPacket.request : ControlPacket → Option Request
  | .mac info =>
    if info.operationCode = macAddCode then some (.macAdd info.macAddress)
    else if info.operationCode = macRemoveCode then some (.macRemove info.macAddress)
    else none
  | .transmission info => some (.transmissionControl info.bssid)
  | .bssid info =>
    match info.macAddr with
    | [] => if info.operationCode = bssidStationClearCode then some (.stationClear info.bssid)
      else none
    | [station] =>
      if info.operationCode = bssidStationAssociateCode then some (.associate info.bssid station)
      else if info.operationCode = bssidStationDisassociateCode then
        some (.disassociate info.bssid station)
      else none
    | _ => none

namespace Request

def sendOp : Request → NodeOp
  | .macAdd _ => .sendMacAddrCntrl
  | .macRemove _ => .sendMacAddrCntrl
  | .transmissionControl _ => .sendTransmissionCntrl
  | _ => .sendBssidCntrl

def waitOp : Request → NodeOp
  | .macAdd _ => .macAdd
  | .macRemove _ => .macRemove
  | .transmissionControl _ => .transmissionCntrl
  | _ => .bssidCntrl

def expected : Request → List UInt8
  | .macAdd _ => [macAddCode]
  | .transmissionControl _ => [transmissionConfigureSuccessCode]
  | .stationClear _ => [bssidStationClearCode]
  | .macRemove _ => [macRemoveCode]
  | .associate _ _ => [bssidStationAssociateCode, bssidStationExistedCode]
  | .disassociate _ _ => [bssidStationDisassociateCode, bssidStationNotExistedCode]

def Confirmed (q : Request) (reply : TimedReply) : Prop :=
  reply.returnCode ≠ -1 ∧ reply.response ∈ q.expected

instance (q : Request) (reply : TimedReply) : Decidable (q.Confirmed reply) :=
  inferInstanceAs (Decidable (_ ∧ _))

theorem failed_iff_one {q : Request} {code : UInt8} (h : q.expected = [code])
    (reply : TimedReply) :
    (reply.returnCode = -1 ∨ reply.response ≠ code) ↔ ¬q.Confirmed reply := by
  simp only [Confirmed, h, List.mem_singleton]
  tauto

theorem failed_iff_two {q : Request} {code already : UInt8} (h : q.expected = [code, already])
    (reply : TimedReply) :
    (reply.returnCode = -1 ∨ ¬(reply.response = code ∨ reply.response = already)) ↔
      ¬q.Confirmed reply := by
  simp only [Confirmed, h, List.mem_cons, List.not_mem_nil, or_false]
  tauto

end Request

/-- The requests of a command and the update that it ends with. -/
structure Plan where
  requests : List Request
  op : NodeOp
  text : String
  requests_ne : requests ≠ []

def addressOf (root : Json) (key : String) : Option (String × Mac) :=
  match objectGet (objectGet root jsonChanges) key with
  | some (.string text) => (parseMac text).map fun address => (text, address)
  | _ => none

/-- The script of the command that a JSON value asks for, if it asks for one. -/
def plan (root : Json) : Option Plan :=
  match objectGet root jsonCommand with
  | some (.string command) =>
    if command = radioSetCmd ∨ command = radioBulkSetCmd then do
      let (text, b) ← addressOf root jsonMacAddress
      some ⟨[.macAdd b, .transmissionControl b], .bssidAdd, text, by simp⟩
    else if command = uciDeleteSection ∨ command = uciDeleteBss then do
      let (text, b) ← addressOf root jsonMacAddress
      some ⟨[.stationClear b, .macRemove b], .bssidRemove, text, by simp⟩
    else if command = macAssociateCmd then do
      let (bssid, b) ← addressOf root jsonBssid
      let (station, m) ← addressOf root jsonMacAddress
      some ⟨[.associate b m], .bssidMacAssociate, bssid ++ "|" ++ station, by simp⟩
    else if command = macDisassociateCmd then do
      let (bssid, b) ← addressOf root jsonBssid
      let (station, m) ← addressOf root jsonMacAddress
      some ⟨[.disassociate b m], .bssidMacDisassociate, bssid ++ "|" ++ station, by simp⟩
    else none
  | _ => none

/-- The scripts there are, each with the command it belongs to and the addresses it needs. -/
theorem plan_inversion {root : Json} {P : Plan} (h : plan root = some P) :
    ∃ command, objectGet root jsonCommand = some (.string command) ∧
      ((∃ x, addressOf root jsonMacAddress = some x ∧
        ((command = radioSetCmd ∨ command = radioBulkSetCmd) ∧
            P = ⟨[.macAdd x.2, .transmissionControl x.2], .bssidAdd, x.1, by simp⟩ ∨
          (command = uciDeleteSection ∨ command = uciDeleteBss) ∧
            P = ⟨[.stationClear x.2, .macRemove x.2], .bssidRemove, x.1, by simp⟩)) ∨
      ∃ x y, addressOf root jsonBssid = some x ∧ addressOf root jsonMacAddress = some y ∧
        (command = macAssociateCmd ∧
            P = ⟨[.associate x.2 y.2], .bssidMacAssociate, x.1 ++ "|" ++ y.1, by simp⟩ ∨
          command = macDisassociateCmd ∧
            P = ⟨[.disassociate x.2 y.2], .bssidMacDisassociate, x.1 ++ "|" ++ y.1, by simp⟩)) := by
  unfold plan at h
  split at h
  · rename_i command hc
    refine ⟨command, hc, ?_⟩
    split_ifs at h with h1 h2 h3 h4
    · obtain ⟨x, hx, heq⟩ := Option.bind_eq_some_iff.mp h
      exact .inl ⟨x, hx, .inl ⟨h1, (Option.some.inj heq).symm⟩⟩
    · obtain ⟨x, hx, heq⟩ := Option.bind_eq_some_iff.mp h
      exact .inl ⟨x, hx, .inr ⟨h2, (Option.some.inj heq).symm⟩⟩
    · obtain ⟨x, hx, heq⟩ := Option.bind_eq_some_iff.mp h
      obtain ⟨y, hy, heq⟩ := Option.bind_eq_some_iff.mp heq
      exact .inr ⟨x, y, hx, hy, .inl ⟨h3, (Option.some.inj heq).symm⟩⟩
    · obtain ⟨x, hx, heq⟩ := Option.bind_eq_some_iff.mp h
      obtain ⟨y, hy, heq⟩ := Option.bind_eq_some_iff.mp heq
      exact .inr ⟨x, y, hx, hy, .inr ⟨h4, (Option.some.inj heq).symm⟩⟩
  · cases h

def script (P : Option Plan) : List Request := P.elim [] Plan.requests

inductive Phase
  | ready
  | awaiting (q : Request)
  | refused
  | updated

structure Progress where
  remaining : List Request
  phase : Phase

def monitor (P : Option Plan) : Monitor Call Reply Progress
  | s, .setMessage _ =>
    match s.phase with
    -- no message is set between a request and its reply
    | .awaiting _ => none
    | _ => some fun _ => s
  | s, .sync op packet =>
    match s.phase, s.remaining with
    | .ready, q :: remaining =>
      if op = q.sendOp ∧ packet.request = some q then some fun _ => ⟨remaining, .awaiting q⟩
      else none
    | _, _ => none
  | s, .timedSync op limit =>
    match s.phase with
    | .awaiting q =>
      if op = q.waitOp ∧ limit = timeout then
        some fun reply : TimedReply =>
          ⟨s.remaining, if q.Confirmed reply then .ready else .refused⟩
      else none
    | _ => none
  | s, .updateBssids op text =>
    match s.phase, s.remaining with
    -- only when every request of the plan has been confirmed
    | .ready, [] =>
      if P.any fun plan => op = plan.op ∧ text = plan.text then some fun _ => ⟨[], .updated⟩
      else none
    | _, _ => none

def Unfinished (P : Option Plan) (s : Progress) : Prop :=
  s.phase = .refused ∨ s.phase = .ready ∧ (P = none ∨ s.remaining ≠ [])

def Ends (P : Option Plan) (s : Progress) (code : UInt8) : Prop :=
  Unfinished P s ∨ s.phase = .updated ∧ code &&& returnCodeError = 0

theorem Unfinished.setMessage {P : Option Plan} {s : Progress} (h : Unfinished P s)
    (message : String) : monitor P s (.setMessage message) = some fun _ => s := by
  rcases h with hp | ⟨hp, -⟩ <;> simp [monitor, hp]

theorem Unfinished.errorResponse {P : Option Plan} {s : Progress} (h : Unfinished P s)
    (command message : String) :
    Obeys (monitor P) (Ends P) s (errorResponse command message) := by
  exact ⟨fun _ => s, h.setMessage _, fun _ => .inl h⟩

theorem Unfinished.everythingOk {P : Option Plan} {s : Progress} (h : Unfinished P s)
    (code : UInt8) (command radio : String) :
    Obeys (monitor P) (Ends P) s (everythingOk code command radio) := by
  unfold CommsAgent.everythingOk
  split_ifs
  · exact ⟨fun _ => s, h.setMessage _, fun _ => .inl h⟩
  · exact .inl h

theorem unfinished_ready (P : Option Plan) : Unfinished P ⟨script P, .ready⟩ := by
  refine .inr ⟨rfl, ?_⟩
  cases P with
  | none => exact .inl rfl
  | some plan => exact .inr plan.requests_ne

section Steps

variable {P : Option Plan} {q : Request} {remaining : List Request}

/-- Sending the next packet of the script, waiting for the answer to it, and giving
up if the answer does not confirm it. -/
theorem obeys_exchange {Q : Progress → UInt8 → Prop} {op : NodeOp} {packet : ControlPacket}
    {failed : TimedReply → Prop} [DecidablePred failed] {giveUp next : Relay UInt8}
    (hop : op = q.sendOp) (hq : packet.request = some q)
    (hfailed : ∀ reply, failed reply ↔ ¬q.Confirmed reply)
    (hgiveUp : Obeys (monitor P) Q ⟨remaining, .refused⟩ giveUp)
    (hnext : Obeys (monitor P) Q ⟨remaining, .ready⟩ next) :
    Obeys (monitor P) Q ⟨q :: remaining, .ready⟩
      (sync op packet >>= fun _ => timedSync q.waitOp timeout >>= fun reply =>
        if failed reply then giveUp else next) := by
  refine ⟨fun _ => ⟨remaining, .awaiting q⟩, if_pos ⟨hop, hq⟩, fun _ => ?_⟩
  refine ⟨_, if_pos ⟨rfl, rfl⟩, fun reply => ?_⟩
  change Obeys _ _ _ (if failed reply then giveUp else next)
  by_cases h : q.Confirmed reply
  · rw [if_pos h, if_neg (fun hf => (hfailed reply).mp hf h)]
    exact hnext
  · rw [if_neg h, if_pos ((hfailed reply).mpr h)]
    exact hgiveUp

/-- The update at the end of the script. -/
theorem obeys_update {plan : Plan} {command radio : String} :
    Obeys (monitor (some plan)) (Ends (some plan)) ⟨[], .ready⟩
      (updateBssids plan.op plan.text >>= fun _ =>
        everythingOk returnCodeSendResponse command radio) := by
  refine ⟨fun _ => ⟨[], .updated⟩, if_pos (by simp), fun _ => ?_⟩
  exact ⟨fun _ => ⟨[], .updated⟩, rfl, fun _ => .inr ⟨rfl, by decide⟩⟩

end Steps

theorem addressOf_eq {root : Json} {key text : String} {address : Mac}
    (ht : objectGet (objectGet root jsonChanges) key = some (.string text))
    (ha : parseMac text = some address) : addressOf root key = some (text, address) := by
  simp [addressOf, ht, ha]

theorem configureTransmission_obeys {root : Json} {changes : Option Json}
    {command radio bssid : String} {b : Mac}
    (hp : plan root = some ⟨[.macAdd b, .transmissionControl b], .bssidAdd, bssid, by simp⟩) :
    Obeys (monitor (plan root)) (Ends (plan root)) ⟨[.transmissionControl b], .ready⟩
      (configureTransmission changes command radio bssid b) := by
  have hready : Unfinished (plan root) ⟨[.transmissionControl b], .ready⟩ :=
    .inr ⟨rfl, .inr (by simp)⟩
  unfold configureTransmission
  dsimp only
  split
  · split
    · split
      · split
        · apply obeys_exchange rfl rfl (Request.failed_iff_one rfl)
          · exact Unfinished.errorResponse (.inl rfl) _ _
          · rw [hp]
            exact obeys_update
        · exact hready.errorResponse _ _
      · exact hready.errorResponse _ _
    · exact hready.errorResponse _ _
  · exact hready.errorResponse _ _

theorem radioSet_obeys {root : Json} {command : String}
    (hc : objectGet root jsonCommand = some (.string command))
    (hn : command = radioSetCmd ∨ command = radioBulkSetCmd) :
    Obeys (monitor (plan root)) (Ends (plan root)) ⟨script (plan root), .ready⟩
      (radioSet root command) := by
  have hready := unfinished_ready (plan root)
  unfold radioSet
  dsimp only
  split
  · split
    · split
      · split
        · rename_i bssid hbssid _ b hb
          have hp : plan root =
              some ⟨[.macAdd b, .transmissionControl b], .bssidAdd, bssid, by simp⟩ := by
            simp only [plan, hc, if_pos hn, addressOf_eq hbssid hb]
            rfl
          have hscript : script (plan root) = [.macAdd b, .transmissionControl b] := by
            rw [hp]
            rfl
          rw [hscript]
          apply obeys_exchange rfl rfl (Request.failed_iff_one rfl)
          · exact Unfinished.errorResponse (.inl rfl) _ _
          · exact configureTransmission_obeys hp
        · exact hready.errorResponse _ _
      · exact hready.errorResponse _ _
    · exact hready.errorResponse _ _
  · exact hready.errorResponse _ _

theorem deleteBssid_obeys {root : Json} {command : String}
    (hc : objectGet root jsonCommand = some (.string command))
    (hn : command = uciDeleteSection ∨ command = uciDeleteBss) :
    Obeys (monitor (plan root)) (Ends (plan root)) ⟨script (plan root), .ready⟩
      (deleteBssid root command) := by
  have hready := unfinished_ready (plan root)
  unfold deleteBssid
  dsimp only
  split
  · split
    · split
      · rename_i bssid hbssid _ b hb
        have hne : ¬(command = radioSetCmd ∨ command = radioBulkSetCmd) := by
          rcases hn with rfl | rfl <;> decide
        have hp : plan root =
            some ⟨[.stationClear b, .macRemove b], .bssidRemove, bssid, by simp⟩ := by
          simp only [plan, hc, if_neg hne, if_pos hn, addressOf_eq hbssid hb]
          rfl
        have hscript : script (plan root) = [.stationClear b, .macRemove b] := by
          rw [hp]
          rfl
        rw [hscript]
        apply obeys_exchange rfl rfl (Request.failed_iff_one rfl)
        · exact Unfinished.errorResponse (.inl rfl) _ _
        · rw [removeMac, hb]
          apply obeys_exchange rfl rfl (Request.failed_iff_one rfl)
          · exact Unfinished.errorResponse (.inl rfl) _ _
          · rw [hp]
            exact obeys_update
      · exact hready.errorResponse _ _
    · exact hready.errorResponse _ _
  · exact hready.errorResponse _ _

theorem addressOf_of_missing {root : Json} {key : String}
    (h : ∀ text, objectGet (objectGet root jsonChanges) key = some (.string text) → False) :
    addressOf root key = none := by
  unfold addressOf
  split
  · rename_i text htext
    exact (h text htext).elim
  · rfl

theorem addressOf_of_unparsed {root : Json} {key text : String}
    (htext : objectGet (objectGet root jsonChanges) key = some (.string text))
    (h : ∀ b, parseMac text = some b → False) : addressOf root key = none := by
  simp only [addressOf, htext, Option.map_eq_none_iff]
  exact Option.eq_none_iff_forall_ne_some.mpr h

/-- Without an object of changes there is no address. -/
theorem addressOf_of_no_changes {root : Json}
    (h : ∀ members, objectGet root jsonChanges = some (.object members) → False) (key : String) :
    addressOf root key = none := by
  apply addressOf_of_missing
  intro text htext
  unfold objectGet at htext
  split at htext
  · rename_i hx
    exact h _ hx
  · cases htext

def stationExchange (operationCode already : UInt8) (op : NodeOp) (command : String)
    (bssid station : String × Mac) : Relay UInt8 := do
  sync .sendBssidCntrl (.bssid ⟨1, bssid.2, operationCode, [station.2], rfl⟩)
  let reply ← timedSync .bssidCntrl timeout
  if reply.returnCode = -1 ∨ ¬(reply.response = operationCode ∨ reply.response = already) then
    return returnCodeError ||| returnCodeNoResponse
  else
    updateBssids op (bssid.1 ++ "|" ++ station.1)
    everythingOk returnCodeNoResponse command ""

theorem stationCommand_cases (operationCode already : UInt8) (op : NodeOp) (root : Json)
    (command : String) :
    (∃ x y, addressOf root jsonBssid = some x ∧ addressOf root jsonMacAddress = some y ∧
      stationCommand operationCode already op root command =
        stationExchange operationCode already op command x y) ∨
    ((addressOf root jsonBssid = none ∨ addressOf root jsonMacAddress = none) ∧
      stationCommand operationCode already op root command =
        .ret (returnCodeError ||| returnCodeNoResponse)) := by
  unfold stationCommand
  dsimp only
  split
  · split
    · rename_i bssid hbssid
      split
      · rename_i station hstation
        split
        · rename_i b hb
          split
          · rename_i m hm
            exact .inl ⟨_, _, addressOf_eq hbssid hb, addressOf_eq hstation hm, rfl⟩
          · rename_i h
            exact .inr ⟨.inr (addressOf_of_unparsed hstation h), rfl⟩
        · rename_i h
          exact .inr ⟨.inl (addressOf_of_unparsed hbssid h), rfl⟩
      · rename_i h
        exact .inr ⟨.inr (addressOf_of_missing h), rfl⟩
    · rename_i h
      exact .inr ⟨.inl (addressOf_of_missing h), rfl⟩
  · rename_i h
    exact .inr ⟨.inl (addressOf_of_no_changes h _), rfl⟩

namespace StationOp

variable (op : StationOp) (b m : Mac)

theorem sendOp_request : (op.request b m).sendOp = .sendBssidCntrl := by
  cases op <;> rfl

theorem waitOp_request : (op.request b m).waitOp = .bssidCntrl := by
  cases op <;> rfl

theorem expected_request :
    (op.request b m).expected = [op.operationCode, op.alreadyCode] := by
  cases op <;> rfl

theorem request_packet :
    (ControlPacket.bssid ⟨1, b, op.operationCode, [m], rfl⟩).request = some (op.request b m) := by
  cases op <;> rfl

theorem command_ne : ¬(op.command = radioSetCmd ∨ op.command = radioBulkSetCmd) ∧
    ¬(op.command = uciDeleteSection ∨ op.command = uciDeleteBss) := by
  cases op <;> decide

end StationOp

theorem plan_station (op : StationOp) {root : Json}
    (hc : objectGet root jsonCommand = some (.string op.command)) :
    plan root = (addressOf root jsonBssid).bind fun x =>
      (addressOf root jsonMacAddress).map fun y =>
        ⟨[op.request x.2 y.2], op.nodeOp, x.1 ++ "|" ++ y.1, by simp⟩ := by
  simp only [plan, hc, if_neg op.command_ne.1, if_neg op.command_ne.2]
  cases op with
  | associate =>
    rw [if_pos (show StationOp.associate.command = macAssociateCmd from rfl)]
    cases addressOf root jsonBssid <;> cases addressOf root jsonMacAddress <;> rfl
  | disassociate =>
    rw [if_neg (by decide),
      if_pos (show StationOp.disassociate.command = macDisassociateCmd from rfl)]
    cases addressOf root jsonBssid <;> cases addressOf root jsonMacAddress <;> rfl

/-- A station command keeps to its script, and `Q` holds wherever it returns. -/
theorem stationCommand_obeys (op : StationOp) {Q : Progress → UInt8 → Prop} {root : Json}
    (command : String) (hc : objectGet root jsonCommand = some (.string op.command))
    (hmissing : plan root = none → Q ⟨[], .ready⟩ (returnCodeError ||| returnCodeNoResponse))
    (hrefused : Q ⟨[], .refused⟩ (returnCodeError ||| returnCodeNoResponse))
    (hdone : Q ⟨[], .updated⟩ (returnCodeOk ||| returnCodeNoResponse)) :
    Obeys (monitor (plan root)) Q ⟨script (plan root), .ready⟩
      (stationCommand op.operationCode op.alreadyCode op.nodeOp root command) := by
  have hplan := plan_station op hc
  rcases stationCommand_cases op.operationCode op.alreadyCode op.nodeOp root command with
    ⟨x, y, hx, hy, heq⟩ | ⟨hnone, heq⟩
  · have hp : plan root =
        some ⟨[op.request x.2 y.2], op.nodeOp, x.1 ++ "|" ++ y.1, by simp⟩ := by
      simp [hplan, hx, hy]
    have hscript : script (plan root) = [op.request x.2 y.2] := by
      rw [hp]
      rfl
    rw [heq, stationExchange, hscript, ← op.waitOp_request x.2 y.2]
    apply obeys_exchange (op.sendOp_request x.2 y.2).symm (op.request_packet x.2 y.2)
      (Request.failed_iff_two (op.expected_request x.2 y.2))
    · exact hrefused
    · rw [hp]
      exact ⟨fun _ => ⟨[], .updated⟩, if_pos (by simp), fun _ => hdone⟩
  · have hp : plan root = none := by
      rcases hnone with h | h
      · simp [hplan, h]
      · cases hb : addressOf root jsonBssid <;> simp [hplan, h, hb]
    rw [heq, hp]
    exact hmissing hp

theorem runCommand_of_command {root : Json} {command : String}
    (hc : objectGet root jsonCommand = some (.string command)) :
    runCommand root =
      if command = radioSetCmd ∨ command = radioBulkSetCmd then radioSet root command
      else if command = uciDeleteSection ∨ command = uciDeleteBss then deleteBssid root command
      else if command = macAssociateCmd then macAssociate root command
      else if command = macDisassociateCmd then macDisassociate root command
      else everythingOk returnCodeNoResponse command "" := by
  cases root with
  | object members => simp only [runCommand, hc]
  | _ => cases hc

theorem runCommand_obeys (root : Json) :
    Obeys (monitor (plan root)) (Ends (plan root)) ⟨script (plan root), .ready⟩
      (runCommand root) := by
  have hready := unfinished_ready (plan root)
  have hmissing (hp : plan root = none) :
      Ends (plan root) ⟨[], .ready⟩ (returnCodeError ||| returnCodeNoResponse) :=
    .inl (.inr ⟨rfl, .inl hp⟩)
  have hdone : Ends (plan root) ⟨[], .updated⟩ (returnCodeOk ||| returnCodeNoResponse) :=
    .inr ⟨rfl, by decide⟩
  unfold runCommand
  split
  · split
    · rename_i command hc
      split_ifs with h1 h2 h3 h4
      · exact radioSet_obeys hc h1
      · exact deleteBssid_obeys hc h2
      · subst h3
        exact stationCommand_obeys .associate _ hc hmissing (.inl (.inl rfl)) hdone
      · subst h4
        exact stationCommand_obeys .disassociate _ hc hmissing (.inl (.inl rfl)) hdone
      · exact hready.everythingOk _ _ _
    · exact .inl hready
  · exact .inl hready

def planOf (jsonLoads : String → Option Json) (text : String) : Option Plan :=
  (jsonLoads text).bind plan

/-- The interpreter keeps to the script of its command, whatever WARP answers. -/
theorem parseJson_obeys (jsonLoads : String → Option Json) (text : String) :
    Obeys (monitor (planOf jsonLoads text)) (Ends (planOf jsonLoads text))
      ⟨script (planOf jsonLoads text), .ready⟩ (parseJson jsonLoads text) := by
  unfold parseJson planOf
  cases jsonLoads text with
  | some root => exact runCommand_obeys root
  | none =>
    dsimp only
    split_ifs
    · exact ⟨_, rfl, fun _ => .inl (unfinished_ready none)⟩
    · exact .inl (unfinished_ready none)

abbrev Trace := List (Event Call Reply)

def sent (t : Trace) : List ControlPacket :=
  t.flatMap fun
    | ⟨.sync op packet, _⟩ => warpSync op packet
    | _ => []

def updates (t : Trace) : List (NodeOp × String) :=
  t.flatMap fun
    | ⟨.updateBssids op text, _⟩ => [(op, text)]
    | _ => []

def nodeCalls {ν : Type} (group : List ν) (t : Trace) : List (ν × NodeOp × String) :=
  (updates t).flatMap fun u => nodeSyncs group u.1 u.2

def isMessage : Call → Bool
  | .setMessage _ => true
  | _ => false

def withoutMessages (t : Trace) : Trace := t.filter fun e => !isMessage e.1

/-- A packet that was sent for a request, and what the wait for its answer gave. -/
structure Exchange where
  request : Request
  packet : ControlPacket
  reply : TimedReply
  asks : packet.request = some request

namespace Exchange

def Confirmed (x : Exchange) : Prop := x.request.Confirmed x.reply

instance (x : Exchange) : Decidable x.Confirmed := inferInstanceAs (Decidable (_ ∧ _))

def events (x : Exchange) : Trace :=
  [⟨.sync x.request.sendOp x.packet, ()⟩, ⟨.timedSync x.request.waitOp timeout, x.reply⟩]

end Exchange

/-- The update that is due when `requests` were to be made and `xs` has happened. -/
def updateDue (P : Option Plan) (requests : List Request) (xs : List Exchange) :
    List (NodeOp × String) :=
  match P with
  | none => []
  | some plan =>
    if xs.map Exchange.request = requests ∧ ∀ x ∈ xs, x.Confirmed then [(plan.op, plan.text)]
    else []

def updateEvents (us : List (NodeOp × String)) : Trace :=
  us.map fun u => ⟨.updateBssids u.1 u.2, ()⟩

def FromReady (P : Option Plan) (remaining : List Request) (t : Trace) (code : UInt8) : Prop :=
  ∃ xs : List Exchange,
    t = xs.flatMap Exchange.events ++ updateEvents (updateDue P remaining xs) ∧
    xs.map Exchange.request <+: remaining ∧ (∀ x ∈ xs.dropLast, x.Confirmed) ∧
    (code &&& returnCodeError ≠ 0 → updateDue P remaining xs = [])

def Continues (P : Option Plan) (t : Trace) (code : UInt8) : Progress → Prop
  | ⟨remaining, .ready⟩ => FromReady P remaining t code
  | ⟨remaining, .awaiting q⟩ => ∃ (reply : TimedReply) (t' : Trace),
      t = ⟨.timedSync q.waitOp timeout, reply⟩ :: t' ∧
      (q.Confirmed reply → FromReady P remaining t' code) ∧ (¬q.Confirmed reply → t' = [])
  | ⟨_, .refused⟩ => t = []
  | ⟨_, .updated⟩ => t = [] ∧ code &&& returnCodeError = 0

section Monitor

variable {P : Option Plan} {s : Progress}

theorem monitor_setMessage {message : String} {next : Unit → Progress}
    (h : monitor P s (.setMessage message) = some next) :
    (∀ q, s.phase ≠ .awaiting q) ∧ ∀ r, next r = s := by
  obtain ⟨remaining, phase⟩ := s
  cases phase with
  | awaiting q => cases h
  | ready => exact ⟨fun _ he => (by cases he), fun r => by rw [← Option.some.inj h]⟩
  | refused => exact ⟨fun _ he => (by cases he), fun r => by rw [← Option.some.inj h]⟩
  | updated => exact ⟨fun _ he => (by cases he), fun r => by rw [← Option.some.inj h]⟩

theorem monitor_sync {op : NodeOp} {packet : ControlPacket} {next : Unit → Progress}
    (h : monitor P s (.sync op packet) = some next) :
    ∃ q remaining, s = ⟨q :: remaining, .ready⟩ ∧ op = q.sendOp ∧ packet.request = some q ∧
      ∀ r, next r = ⟨remaining, .awaiting q⟩ := by
  obtain ⟨remaining, phase⟩ := s
  cases phase with
  | ready =>
    cases remaining with
    | nil => cases h
    | cons q remaining =>
      obtain ⟨⟨hop, hq⟩, he⟩ := Option.ite_none_right_eq_some.mp h
      exact ⟨q, remaining, rfl, hop, hq, fun r => by rw [← Option.some.inj he]⟩
  | awaiting q => cases h
  | refused => cases h
  | updated => cases h

theorem monitor_timedSync {op : NodeOp} {limit : ℕ} {next : TimedReply → Progress}
    (h : monitor P s (.timedSync op limit) = some next) :
    ∃ q remaining, s = ⟨remaining, .awaiting q⟩ ∧ op = q.waitOp ∧ limit = timeout ∧
      ∀ r, next r = ⟨remaining, if q.Confirmed r then .ready else .refused⟩ := by
  obtain ⟨remaining, phase⟩ := s
  cases phase with
  | awaiting q =>
    obtain ⟨⟨hop, hl⟩, he⟩ := Option.ite_none_right_eq_some.mp h
    exact ⟨q, remaining, rfl, hop, hl, fun r => by rw [← Option.some.inj he]⟩
  | ready => cases h
  | refused => cases h
  | updated => cases h

theorem monitor_updateBssids {op : NodeOp} {text : String} {next : Unit → Progress}
    (h : monitor P s (.updateBssids op text) = some next) :
    ∃ plan, P = some plan ∧ s = ⟨[], .ready⟩ ∧ op = plan.op ∧ text = plan.text ∧
      ∀ r, next r = ⟨[], .updated⟩ := by
  obtain ⟨remaining, phase⟩ := s
  cases phase with
  | ready =>
    cases remaining with
    | nil =>
      obtain ⟨hany, he⟩ := Option.ite_none_right_eq_some.mp h
      obtain ⟨plan, hP, hu⟩ := (Option.any_eq_true _ _).mp hany
      have hu' := of_decide_eq_true hu
      exact ⟨plan, hP, rfl, hu'.1, hu'.2, fun r => by rw [← Option.some.inj he]⟩
    | cons q remaining => cases h
  | awaiting q => cases h
  | refused => cases h
  | updated => cases h

end Monitor

theorem updateDue_nil {P : Option Plan} {remaining : List Request}
    (h : P = none ∨ remaining ≠ []) : updateDue P remaining [] = [] := by
  cases P with
  | none => rfl
  | some plan =>
    have hne := h.resolve_left (by simp)
    exact if_neg fun hc => hne hc.1.symm

theorem updateDue_cons (P : Option Plan) (remaining : List Request) {x : Exchange}
    (hx : x.Confirmed) (xs : List Exchange) :
    updateDue P (x.request :: remaining) (x :: xs) = updateDue P remaining xs := by
  cases P with
  | none => rfl
  | some plan => simp [updateDue, hx]

theorem updateDue_refused (P : Option Plan) (requests : List Request) {x : Exchange}
    (hx : ¬x.Confirmed) : updateDue P requests [x] = [] := by
  cases P with
  | none => rfl
  | some plan => exact if_neg fun hc => hx (hc.2 x List.mem_cons_self)

/-- An exchange and what follows it. -/
theorem FromReady.exchange {P : Option Plan} {q : Request} {packet : ControlPacket}
    {remaining : List Request} {t : Trace} {code : UInt8} (hq : packet.request = some q)
    (h : Continues P t code ⟨remaining, .awaiting q⟩) :
    FromReady P (q :: remaining) (⟨.sync q.sendOp packet, ()⟩ :: t) code := by
  obtain ⟨reply, t', rfl, hyes, hno⟩ := h
  let x : Exchange := ⟨q, packet, reply, hq⟩
  by_cases hc : q.Confirmed reply
  · obtain ⟨xs, rfl, hpre, hdrop, herr⟩ := hyes hc
    have hdue := updateDue_cons P remaining (x := x) hc xs
    refine ⟨x :: xs, ?_, ?_, ?_, ?_⟩
    · rw [hdue]
      rfl
    · exact List.cons_prefix_cons.mpr ⟨rfl, hpre⟩
    · intro y hy
      cases xs with
      | nil => cases hy
      | cons z zs =>
        rcases List.mem_cons.mp hy with rfl | hy
        · exact hc
        · exact hdrop y hy
    · rw [hdue]
      exact herr
  · have hdue := updateDue_refused P (q :: remaining) (x := x) hc
    refine ⟨[x], ?_, ?_, ?_, ?_⟩
    · rw [hdue, hno hc]
      rfl
    · exact List.cons_prefix_cons.mpr ⟨rfl, List.nil_prefix⟩
    · exact fun y hy => by cases hy
    · exact fun _ => hdue

/-- What the monitor allows is what the script says. -/
theorem continues_of_observe {P : Option Plan} {t : Trace} {s s' : Progress} {code : UInt8}
    (h : observe (monitor P) s t = some s') (he : Ends P s' code) :
    Continues P (withoutMessages t) code s := by
  -- each call moves the monitor, and its state says how the trace may go on
  induction t generalizing s with
  | nil =>
    obtain rfl := Option.some.inj h
    obtain ⟨remaining, phase⟩ := s
    rcases he with (hp | ⟨hp, hr⟩) | ⟨hp, hcode⟩ <;> obtain rfl : phase = _ := hp
    · rfl
    · have hdue := updateDue_nil hr
      refine ⟨[], ?_, List.nil_prefix, fun y hy => (by cases hy), fun _ => hdue⟩
      rw [hdue]
      rfl
    · exact ⟨rfl, hcode⟩
  | cons e t ih =>
    obtain ⟨next, hM, hrun⟩ := Option.bind_eq_some_iff.mp h
    obtain ⟨c, r⟩ := e
    cases c with
    | setMessage message =>
      rw [(monitor_setMessage hM).2] at hrun
      exact ih hrun
    | sync op packet =>
      obtain ⟨q, remaining, rfl, rfl, hq, hnext⟩ := monitor_sync hM
      rw [hnext] at hrun
      exact FromReady.exchange hq (ih hrun)
    | timedSync op limit =>
      obtain ⟨q, remaining, rfl, rfl, rfl, hnext⟩ := monitor_timedSync hM
      rw [hnext] at hrun
      refine ⟨r, withoutMessages t, rfl, fun hc => ?_, fun hc => ?_⟩
      · rw [if_pos hc] at hrun
        exact ih hrun
      · rw [if_neg hc] at hrun
        exact ih hrun
    | updateBssids op text =>
      obtain ⟨plan, rfl, rfl, rfl, rfl, hnext⟩ := monitor_updateBssids hM
      rw [hnext] at hrun
      obtain ⟨ht, hcode⟩ := ih hrun
      refine ⟨[], ?_, List.nil_prefix, fun y hy => (by cases hy), fun hne => absurd hcode hne⟩
      change _ :: withoutMessages t = _
      rw [ht]
      rfl

def answer (answers : ℕ → TimedReply) (n : ℕ) : (c : Call) → Reply c × ℕ
  | .timedSync _ _ => (answers n, n + 1)
  | .sync _ _ => ((), n)
  | .setMessage _ => ((), n)
  | .updateBssids _ _ => ((), n)

/-- The calls of a command and its return code, for given answers of WARP. -/
def transcript (answers : ℕ → TimedReply) (p : Relay UInt8) : Trace × UInt8 :=
  let (t, code, _) := p.run (answer answers) 0
  (t, code)

theorem sent_withoutMessages (t : Trace) : sent (withoutMessages t) = sent t := by
  induction t with
  | nil => rfl
  | cons e t ih =>
    obtain ⟨c, r⟩ := e
    cases c <;> simp_all [sent, withoutMessages, isMessage]

theorem updates_withoutMessages (t : Trace) : updates (withoutMessages t) = updates t := by
  induction t with
  | nil => rfl
  | cons e t ih =>
    obtain ⟨c, r⟩ := e
    cases c <;> simp_all [updates, withoutMessages, isMessage]

theorem warpSync_sendOp (q : Request) (packet : ControlPacket) :
    warpSync q.sendOp packet = [packet] := by
  cases q <;> rfl

theorem sent_events (xs : List Exchange) :
    sent (xs.flatMap Exchange.events) = xs.map Exchange.packet := by
  induction xs with
  | nil => rfl
  | cons x xs ih =>
    simp only [List.flatMap_cons, Exchange.events, sent, List.flatMap_append] at ih ⊢
    simp [ih, warpSync_sendOp]

theorem updates_events (xs : List Exchange) : updates (xs.flatMap Exchange.events) = [] := by
  induction xs with
  | nil => rfl
  | cons x xs ih => simpa [Exchange.events, updates] using ih

theorem sent_updateEvents (us : List (NodeOp × String)) : sent (updateEvents us) = [] := by
  induction us with
  | nil => rfl
  | cons u us ih => exact ih

theorem updates_updateEvents (us : List (NodeOp × String)) :
    updates (updateEvents us) = us := by
  induction us with
  | nil => rfl
  | cons u us ih => exact congrArg (u :: ·) ih

/-- Every command, for all answers of WARP: the packets sent are a prefix of the
script, each after the one before it was confirmed; the update comes last, exactly
when the whole script was confirmed; and a command that fails reaches no node. -/
theorem parse_json_follows_script (jsonLoads : String → Option Json) (text : String)
    (answers : ℕ → TimedReply) :
    let P := planOf jsonLoads text
    let t := (transcript answers (parseJson jsonLoads text)).1
    let code := (transcript answers (parseJson jsonLoads text)).2
    ∃ xs : List Exchange,
      withoutMessages t = xs.flatMap Exchange.events ++ updateEvents (updateDue P (script P) xs) ∧
      sent t = xs.map Exchange.packet ∧
      xs.map Exchange.request <+: script P ∧ (∀ x ∈ xs.dropLast, x.Confirmed) ∧
      updates t = updateDue P (script P) xs ∧
      (code &&& returnCodeError ≠ 0 →
        ∀ (ν : Type) (group : List ν), nodeCalls group t = []) := by
  intro P t code
  obtain ⟨s, hs, he⟩ := (parseJson_obeys jsonLoads text).observe_run (answer answers) 0
  obtain ⟨xs, ht, hpre, hdrop, herr⟩ := continues_of_observe hs he
  have hupdates : updates t = updateDue P (script P) xs := by
    rw [← updates_withoutMessages, show withoutMessages t = _ from ht]
    simp only [updates, List.flatMap_append]
    exact congrArg₂ (· ++ ·) (updates_events xs) (updates_updateEvents _)
  refine ⟨xs, ht, ?_, hpre, hdrop, hupdates, fun hcode ν group => ?_⟩
  · rw [← sent_withoutMessages, show withoutMessages t = _ from ht]
    simp only [sent, List.flatMap_append]
    rw [← List.append_nil (xs.map Exchange.packet)]
    exact congrArg₂ (· ++ ·) (sent_events xs) (sent_updateEvents _)
  · rw [nodeCalls, hupdates, show updateDue P (script P) xs = [] from herr hcode]
    rfl

end AuroraRelay.CommsAgent
