import AuroraRelay.CommandScript
import AuroraRelay.DpmAgent

/-!
# Commands carried out

`parse_json` run against the rest of the relay: WARP answers the packets, and
`update_bssids` reaches the agent of the datapath manager, which drives the switch.  Where
WARP confirms every request, a command that passes the checks of its fields ends with its
update, and one that does not has no effect on the agent.
-/

namespace AuroraRelay
open CommsAgent Datapath Interaction WarpProtocol

inductive Occurrence
  | packet (sent : ControlPacket)
  | update (op : NodeOp) (text : String)
  deriving DecidableEq

structure World where
  agent : DpmAgent
  bridge : Bridge
  history : List Occurrence
  /-- An exception has left `update_bssids`, which ends the process. -/
  terminated : Bool

def freshWorld : World := ⟨⟨∅, ∅, ∅⟩, ⟨fun _ => none, []⟩, [], false⟩

/-- What a world takes from outside: the answer of WARP to the last packet of a history, the
names that `ifconfig` gives, the numbers that `ovs-vsctl` gives to new ports, and how
`ovs-ofctl` reads addresses. -/
structure Surroundings where
  warp : List Occurrence → TimedReply
  getInterfaceName : String → String
  newPort : Bridge → String → Option ℕ
  ofctl : Ofctl

/-- `update_bssids`, as far as the agent of the datapath manager goes. -/
def World.updateBssids (S : Surroundings) (w : World) (op : NodeOp) (text : String) : World :=
  let synced := w.agent.sync S.getInterfaceName op text
  { agent := synced.agent
    bridge := synced.commands.foldl (executeCommand S.newPort S.ofctl) w.bridge
    history := w.history ++ [.update op text]
    terminated := w.terminated || !synced.completed }

def World.send (w : World) (packets : List ControlPacket) : World :=
  { w with history := w.history ++ packets.map .packet }

@[simp] theorem send_nil (w : World) : w.send [] = w := by
  simp [World.send]

@[simp] theorem send_send (w : World) (packets more : List ControlPacket) :
    (w.send packets).send more = w.send (packets ++ more) := by
  simp [World.send]

def handle (S : Surroundings) (w : World) : (c : Call) → Reply c × World
  | .sync op packet => ((), w.send (warpSync op packet))
  | .timedSync _ _ => (S.warp w.history, w)
  | .setMessage _ => ((), w)
  | .updateBssids op text => ((), w.updateBssids S op text)

def World.after {α : Type} (S : Surroundings) (w : World) (p : Relay α) : World :=
  (p.run (handle S) w).2.2

def Confirms (warp : List Occurrence → TimedReply) : Prop :=
  ∀ history packet q, ControlPacket.request packet = some q →
    q.Confirmed (warp (history ++ [.packet packet]))

def obligingWarp (history : List Occurrence) : TimedReply :=
  match history.getLast? with
  | some (.packet packet) => ⟨0, (packet.request.bind (·.expected.head?)).getD 0⟩
  | _ => ⟨0, 0⟩

theorem obligingWarp_confirms : Confirms obligingWarp := by
  intro history packet q hq
  simp only [obligingWarp, List.getLast?_concat, hq]
  cases q <;> simp [Request.Confirmed, Request.expected]

section
variable {S : Surroundings} {w : World}

@[simp] theorem after_everythingOk (ifSendResponse : UInt8) (command radio : String) :
    w.after S (everythingOk ifSendResponse command radio) = w := by
  unfold everythingOk
  split_ifs <;> rfl

theorem after_updateBssids {α : Type} (op : NodeOp) (text : String) (next : Relay α) :
    w.after S (updateBssids op text >>= fun _ => next) = (w.updateBssids S op text).after S next :=
  rfl

/-- A request that WARP confirms: the packet has been sent and the command goes on. -/
theorem after_exchange {op op' : NodeOp} {packet : ControlPacket} {q : Request} {limit : ℕ}
    {failed : TimedReply → Prop} [DecidablePred failed] {giveUp next : Relay UInt8}
    (hreply : q.Confirmed (S.warp (w.history ++ [.packet packet]))) (hop : op = q.sendOp)
    (hfailed : ∀ reply, failed reply ↔ ¬q.Confirmed reply) :
    w.after S (sync op packet >>= fun _ => timedSync op' limit >>= fun reply =>
      if failed reply then giveUp else next) = (w.send [packet]).after S next := by
  have hsync : warpSync op packet = [packet] := hop ▸ warpSync_sendOp q packet
  have hgoesOn : ¬failed (S.warp (w.send [packet]).history) := by
    rw [hfailed, not_not]
    exact hreply
  change ((w.send (warpSync op packet)).after S
    (if failed (S.warp (w.send (warpSync op packet)).history) then giveUp else next)) = _
  rw [hsync, if_neg hgoesOn]

end

def isString : Option Json → Bool
  | some (.string _) => true
  | _ => false

def isInteger : Option Json → Bool
  | some (.integer _) => true
  | _ => false

/-- The checks of a command on the fields that are not addresses. -/
def accepted (root : Json) : Bool :=
  match objectGet root jsonCommand with
  | some (.string command) =>
    let changes := objectGet root jsonChanges
    if command = radioSetCmd ∨ command = radioBulkSetCmd then
      isString (objectGet root jsonRadio) && isInteger (objectGet changes jsonChannel) &&
        isString (objectGet changes jsonHwMode) && isInteger (objectGet changes jsonTxPower) &&
        isInteger (objectGet changes jsonDisabled)
    else if command = uciDeleteSection ∨ command = uciDeleteBss then
      isString (objectGet root jsonRadio)
    else true
  | _ => false

/-- The script of a command that gets through to its end when WARP confirms everything. -/
def completion (root : Json) : Option Plan := if accepted root then plan root else none

def associates : ControlPacket → Option Mac
  | .bssid info =>
    if info.operationCode = bssidStationAssociateCode then some info.bssid else none
  | _ => none

theorem associates_of_request {packet : ControlPacket} {q : Request} {b : Mac}
    (hq : packet.request = some q) (hb : associates packet = some b) : ∃ m, q = .associate b m := by
  cases packet with
  | mac info => cases hb
  | transmission info => cases hb
  | bssid info =>
    simp only [associates, Option.ite_none_right_eq_some, Option.some.injEq] at hb
    obtain ⟨hcode, rfl⟩ := hb
    simp only [ControlPacket.request, hcode] at hq
    split at hq
    · cases hq
    · exact ⟨_, (Option.some.inj hq).symm⟩
    · cases hq

def NoAssociation (packets : List ControlPacket) : Prop :=
  ∀ packet ∈ packets, associates packet = none

/-- What a command with this completion does in the world `w` and leaves as `w'`. -/
def Does (S : Surroundings) (w w' : World) : Option Plan → Prop
  | none => ∃ packets, NoAssociation packets ∧ w' = w.send packets
  | some P => ∃ packets, packets.map ControlPacket.request = P.requests.map some ∧
      w' = (w.send packets).updateBssids S P.op P.text

section
variable {S : Surroundings} {w : World} {root : Json} {command : String}

theorem does_nothing (h : completion root = none) : Does S w w (completion root) := by
  rw [h]
  exact ⟨[], by simp [NoAssociation], by simp⟩

theorem isString_eq_false {x : Option Json} (h : ∀ text, x = some (.string text) → False) :
    isString x = false := by
  unfold isString
  split
  · exact (h _ rfl).elim
  · rfl

theorem isInteger_eq_false {x : Option Json} (h : ∀ value, x = some (.integer value) → False) :
    isInteger x = false := by
  unfold isInteger
  split
  · exact (h _ rfl).elim
  · rfl

theorem completion_of_no_command
    (h : ∀ command, objectGet root jsonCommand = some (.string command) → False) :
    completion root = none := by
  have hrejected : accepted root = false := by
    unfold accepted
    split
    · rename_i command hc
      exact (h command hc).elim
    · rfl
  simp [completion, hrejected]

theorem completion_radioSet (hc : objectGet root jsonCommand = some (.string command))
    (hn : command = radioSetCmd ∨ command = radioBulkSetCmd) :
    completion root =
      if isString (objectGet root jsonRadio) &&
        isInteger (objectGet (objectGet root jsonChanges) jsonChannel) &&
        isString (objectGet (objectGet root jsonChanges) jsonHwMode) &&
        isInteger (objectGet (objectGet root jsonChanges) jsonTxPower) &&
        isInteger (objectGet (objectGet root jsonChanges) jsonDisabled) then
        (addressOf root jsonMacAddress).map fun x =>
          ⟨[.macAdd x.2, .transmissionControl x.2], .bssidAdd, x.1, by simp⟩
      else none := by
  simp only [completion, accepted, plan, hc, if_pos hn]
  cases addressOf root jsonMacAddress <;> rfl

theorem completion_delete (hc : objectGet root jsonCommand = some (.string command))
    (hn : command = uciDeleteSection ∨ command = uciDeleteBss) :
    completion root =
      if isString (objectGet root jsonRadio) then
        (addressOf root jsonMacAddress).map fun x =>
          ⟨[.stationClear x.2, .macRemove x.2], .bssidRemove, x.1, by simp⟩
      else none := by
  have hne : ¬(command = radioSetCmd ∨ command = radioBulkSetCmd) := by
    rcases hn with rfl | rfl <;> decide
  simp only [completion, accepted, plan, hc, if_neg hne, if_pos hn]
  cases addressOf root jsonMacAddress <;> rfl

theorem completion_station (op : StationOp)
    (hc : objectGet root jsonCommand = some (.string op.command)) :
    completion root = (addressOf root jsonBssid).bind fun x =>
      (addressOf root jsonMacAddress).map fun y =>
        ⟨[op.request x.2 y.2], op.nodeOp, x.1 ++ "|" ++ y.1, by simp⟩ := by
  rw [← plan_station op hc, completion, if_pos]
  simp only [accepted, hc]
  rw [if_neg op.command_ne.1, if_neg op.command_ne.2]

theorem does_refused {packets : List ControlPacket} (h : completion root = none)
    (hp : NoAssociation packets) : Does S w (w.send packets) (completion root) := by
  rw [h]
  exact ⟨packets, hp, rfl⟩

theorem does_completed {P : Plan} {packets : List ControlPacket} (h : completion root = some P)
    (hp : packets.map ControlPacket.request = P.requests.map some) :
    Does S w ((w.send packets).updateBssids S P.op P.text) (completion root) := by
  rw [h]
  exact ⟨packets, hp, rfl⟩

/-- A confirmed request in the middle of a command. -/
theorem does_exchange (hS : Confirms S.warp) (q : Request) {w' : World} {op op' : NodeOp}
    {packet : ControlPacket} {limit : ℕ} {failed : TimedReply → Prop} [DecidablePred failed]
    {giveUp next : Relay UInt8} (hq : packet.request = some q) (hop : op = q.sendOp)
    (hfailed : ∀ reply, failed reply ↔ ¬q.Confirmed reply)
    (h : Does S w ((w'.send [packet]).after S next) (completion root)) :
    Does S w (w'.after S (sync op packet >>= fun _ => timedSync op' limit >>= fun reply =>
      if failed reply then giveUp else next)) (completion root) := by
  rw [after_exchange (hS _ packet q hq) hop hfailed]
  exact h

theorem configureTransmission_does (hS : Confirms S.warp) {radio bssid : String} {b : Mac}
    (hc : objectGet root jsonCommand = some (.string command))
    (hn : command = radioSetCmd ∨ command = radioBulkSetCmd)
    (hradio : objectGet root jsonRadio = some (.string radio))
    (haddress : addressOf root jsonMacAddress = some (bssid, b)) :
    Does S w ((w.send [.mac ⟨macAddCode, b⟩]).after S
      (configureTransmission (objectGet root jsonChanges) command radio bssid b))
      (completion root) := by
  have hcompletion := completion_radioSet hc hn
  -- the checks that fail come after the first request
  have hrefused (h : completion root = none) :
      Does S w (w.send [.mac ⟨macAddCode, b⟩]) (completion root) := by
    apply does_refused h
    simp [NoAssociation, associates]
  unfold configureTransmission
  dsimp only
  split
  · split
    · split
      · split
        · rename_i hchannel _ _ hhwmode _ _ htxpower _ _ hdisabled
          have hP : completion root =
              some ⟨[.macAdd b, .transmissionControl b], .bssidAdd, bssid, by simp⟩ := by
            simp [hcompletion, hradio, hchannel, hhwmode, htxpower, hdisabled, haddress,
              isString, isInteger]
          apply does_exchange hS (.transmissionControl b) rfl rfl (Request.failed_iff_one rfl)
          rw [after_updateBssids, after_everythingOk, send_send]
          exact does_completed hP rfl
        · rename_i h
          exact hrefused (by simp [hcompletion, isInteger_eq_false h])
      · rename_i h
        exact hrefused (by simp [hcompletion, isInteger_eq_false h])
    · rename_i h
      exact hrefused (by simp [hcompletion, isString_eq_false h])
  · rename_i h
    exact hrefused (by simp [hcompletion, isInteger_eq_false h])

theorem radioSet_does (hS : Confirms S.warp)
    (hc : objectGet root jsonCommand = some (.string command))
    (hn : command = radioSetCmd ∨ command = radioBulkSetCmd) :
    Does S w (w.after S (radioSet root command)) (completion root) := by
  have hcompletion := completion_radioSet hc hn
  have hmissing (h : addressOf root jsonMacAddress = none) : Does S w w (completion root) := by
    apply does_nothing
    simp [hcompletion, h]
  unfold radioSet
  dsimp only
  split
  · split
    · rename_i hradio
      split
      · rename_i bssid hbssid
        split
        · rename_i b hb
          apply does_exchange hS (.macAdd b) rfl rfl (Request.failed_iff_one rfl)
          exact configureTransmission_does hS hc hn hradio (addressOf_eq hbssid hb)
        · rename_i h
          exact hmissing (addressOf_of_unparsed hbssid h)
      · rename_i h
        exact hmissing (addressOf_of_missing h)
    · rename_i h
      exact does_nothing (by simp [hcompletion, isString_eq_false h])
  · rename_i h
    exact hmissing (addressOf_of_no_changes h _)

theorem deleteBssid_does (hS : Confirms S.warp)
    (hc : objectGet root jsonCommand = some (.string command))
    (hn : command = uciDeleteSection ∨ command = uciDeleteBss) :
    Does S w (w.after S (deleteBssid root command)) (completion root) := by
  have hcompletion := completion_delete hc hn
  have hmissing (h : addressOf root jsonMacAddress = none) : Does S w w (completion root) := by
    apply does_nothing
    simp [hcompletion, h]
  unfold deleteBssid
  dsimp only
  split
  · rename_i hradio
    split
    · rename_i bssid hbssid
      split
      · rename_i b hb
        have hP : completion root =
            some ⟨[.stationClear b, .macRemove b], .bssidRemove, bssid, by simp⟩ := by
          simp [hcompletion, hradio, addressOf_eq hbssid hb, isString]
        apply does_exchange hS (.stationClear b) rfl rfl (Request.failed_iff_one rfl)
        rw [removeMac, hb]
        apply does_exchange hS (.macRemove b) rfl rfl (Request.failed_iff_one rfl)
        rw [after_updateBssids, after_everythingOk, send_send]
        exact does_completed hP rfl
      · rename_i h
        exact hmissing (addressOf_of_unparsed hbssid h)
    · rename_i h
      exact hmissing (addressOf_of_missing h)
  · rename_i h
    exact does_nothing (by simp [hcompletion, isString_eq_false h])

theorem stationCommand_does (hS : Confirms S.warp) (op : StationOp)
    (hc : objectGet root jsonCommand = some (.string op.command)) :
    Does S w (w.after S (stationCommand op.operationCode op.alreadyCode op.nodeOp root command))
      (completion root) := by
  have hcompletion := completion_station op hc
  rcases stationCommand_cases op.operationCode op.alreadyCode op.nodeOp root command with
    ⟨x, y, hx, hy, heq⟩ | ⟨hnone, heq⟩
  · have hP : completion root =
        some ⟨[op.request x.2 y.2], op.nodeOp, x.1 ++ "|" ++ y.1, by simp⟩ := by
      simp [hcompletion, hx, hy]
    rw [heq]
    apply does_exchange hS (op.request x.2 y.2) (op.request_packet x.2 y.2)
      (op.sendOp_request x.2 y.2).symm (Request.failed_iff_two (op.expected_request x.2 y.2))
    rw [after_updateBssids, after_everythingOk]
    exact does_completed hP (by simp [op.request_packet])
  · rw [heq]
    apply does_nothing
    rcases hnone with h | h <;> simp [hcompletion, h]

theorem runCommand_does (hS : Confirms S.warp) (root : Json) :
    Does S w (w.after S (runCommand root)) (completion root) := by
  unfold runCommand
  split
  · split
    · rename_i command hc
      split_ifs with h1 h2 h3 h4
      · exact radioSet_does hS hc h1
      · exact deleteBssid_does hS hc h2
      · subst h3
        exact stationCommand_does hS .associate hc
      · subst h4
        exact stationCommand_does hS .disassociate hc
      · rw [after_everythingOk]
        apply does_nothing
        simp [completion, plan, hc, if_neg h1, if_neg h2, if_neg h3, if_neg h4]
    · rename_i h
      exact does_nothing (completion_of_no_command h)
  · rename_i h
    apply does_nothing
    apply completion_of_no_command
    intro command hc
    unfold objectGet at hc
    split at hc
    · rename_i hroot
      exact h _ (Option.some.inj hroot)
    · cases hc

def completionOf (jsonLoads : String → Option Json) (text : String) : Option Plan :=
  (jsonLoads text).bind completion

theorem parseJson_does (hS : Confirms S.warp) (jsonLoads : String → Option Json) (text : String) :
    Does S w (w.after S (parseJson jsonLoads text)) (completionOf jsonLoads text) := by
  unfold parseJson completionOf
  cases jsonLoads text with
  | some root => exact runCommand_does hS root
  | none =>
    dsimp only [Option.bind_none]
    refine ⟨[], by simp [NoAssociation], ?_⟩
    rw [send_nil]
    split_ifs <;> rfl

end

/-- A text that stands for itself between the quotes of a JSON string. -/
def JsonPlain (text : String) : Prop := ∀ c ∈ text.toList, c ≠ '"' ∧ c ≠ '\\' ∧ ' ' ≤ c

instance (text : String) : Decidable (JsonPlain text) := List.decidableBAll _ _

def stationJson (command bssid macAddress : String) : Json :=
  .object [(jsonCommand, .string command),
    (jsonChanges, .object [(jsonBssid, .string bssid), (jsonMacAddress, .string macAddress)])]

/-- The JSON library reads the texts of `timed_check` as JSON has it. -/
def ReadsStations (jsonLoads : String → Option Json) : Prop :=
  ∀ command bssid macAddress, JsonPlain command → JsonPlain bssid → JsonPlain macAddress →
    jsonLoads (DpmAgent.stationText command bssid macAddress) =
      some (stationJson command bssid macAddress)

def stationPieces (command bssid macAddress : List Char) : List (List Char) :=
  [['\x7b'], "command".toList, [':'], command, [','], "changes".toList, [':', '\x7b'],
    "bssid".toList, [':'], bssid, [','], "macaddr".toList, [':'], macAddress, ['\x7d', '\x7d']]

def readStation (text : String) : Option Json :=
  let pieces := text.toList.splitOn '"'
  let command := pieces.getD 3 []
  let bssid := pieces.getD 9 []
  let macAddress := pieces.getD 13 []
  if pieces = stationPieces command bssid macAddress then
    some (stationJson (String.ofList command) (String.ofList bssid) (String.ofList macAddress))
  else none

theorem toList_stationText (command bssid macAddress : String) :
    (DpmAgent.stationText command bssid macAddress).toList =
      ['"'].intercalate (stationPieces command.toList bssid.toList macAddress.toList) := by
  have hcommand : "\x7b\"command\":\"".toList =
      '\x7b' :: '"' :: "command".toList ++ ['"', ':', '"'] := by decide
  have hbssid : "\",\"changes\":\x7b\"bssid\":\"".toList = ['"', ',', '"'] ++ "changes".toList ++
      ['"', ':', '\x7b', '"'] ++ "bssid".toList ++ ['"', ':', '"'] := by decide
  have hmacaddr : "\",\"macaddr\":\"".toList =
      ['"', ',', '"'] ++ "macaddr".toList ++ ['"', ':', '"'] := by decide
  have hend : "\"\x7d\x7d".toList = ['"', '\x7d', '\x7d'] := by decide
  unfold DpmAgent.stationText stationPieces
  simp only [String.toList_append, hcommand, hbssid, hmacaddr, hend]
  -- the literals are put away, or comparing the two sides would evaluate them
  generalize "command".toList = k₁, "changes".toList = k₂, "bssid".toList = k₃,
    "macaddr".toList = k₄, command.toList = c, bssid.toList = b, macAddress.toList = m
  simp only [List.intercalate_cons_cons, List.intercalate_singleton, List.append_assoc,
    List.cons_append, List.nil_append]

theorem readStation_reads : ReadsStations readStation := by
  intro command bssid macAddress hc hb hm
  have hplain {text : String} (h : JsonPlain text) : '"' ∉ text.toList :=
    fun hmem => (h '"' hmem).1 rfl
  have hpieces : (DpmAgent.stationText command bssid macAddress).toList.splitOn '"' =
      stationPieces command.toList bssid.toList macAddress.toList := by
    rw [toList_stationText, List.splitOn_intercalate]
    · simp only [stationPieces, List.forall_mem_cons, hplain hc, hplain hb, hplain hm]
      decide
    · simp [stationPieces]
  unfold readStation
  rw [hpieces]
  refine (if_pos rfl).trans ?_
  simp only [stationPieces, List.getD_cons_succ, List.getD_cons_zero, String.ofList_toList]

section
variable {jsonLoads : String → Option Json} {bssid macAddress : String}

theorem addressOf_stationJson_bssid (command bssid macAddress : String) :
    addressOf (stationJson command bssid macAddress) jsonBssid =
      (parseMac bssid).map fun b => (bssid, b) := rfl

theorem addressOf_stationJson_station (command bssid macAddress : String) :
    addressOf (stationJson command bssid macAddress) jsonMacAddress =
      (parseMac macAddress).map fun m => (macAddress, m) := rfl

theorem completionOf_station (op : StationOp) (hj : ReadsStations jsonLoads) (hb : JsonPlain bssid)
    (hm : JsonPlain macAddress) :
    completionOf jsonLoads (DpmAgent.stationText op.command bssid macAddress) =
      (parseMac bssid).bind fun b => (parseMac macAddress).map fun m =>
        ⟨[op.request b m], op.nodeOp, bssid ++ "|" ++ macAddress, by simp⟩ := by
  have hcommand : JsonPlain op.command := by cases op <;> decide
  rw [completionOf, hj _ _ _ hcommand hb hm, Option.bind_some, completion_station op rfl,
    addressOf_stationJson_bssid, addressOf_stationJson_station]
  cases parseMac bssid <;> cases parseMac macAddress <;> rfl

end

end AuroraRelay
