import AuroraRelay.CommandQueue
import AuroraRelay.ControlEncoders
import AuroraRelay.MacText
import AuroraRelay.StationDatapath

namespace AuroraRelay
open CommsAgent Datapath Std WarpProtocol

/-- The stations that a pass of `timed_check` pushes the command for. -/
def DpmAgent.stationDifference (op : StationOp) (known output : TreeSet String) : List String :=
  match op with
  | .associate => toAssociate known output
  | .disassociate => toDisassociate known output

theorem length_one_element (station : Mac) : [station].length = (1 : UInt8).toNat := rfl

def CommsAgent.StationOp.control (op : StationOp) (bssid station : Mac) : BssidControl where
  totalNumElement := 1
  bssid := bssid
  operationCode := op.operationCode
  macAddr := [station]
  macAddr_length := length_one_element station

theorem plainChar_of_hexDigit {c : Char} (h : (hexDigit c).isSome) : PlainChar c := by
  refine ⟨fun hc => ?_, ?_⟩
  · simp only [List.mem_cons, List.not_mem_nil, or_false] at hc
    rcases hc with rfl | rfl | rfl <;> exact absurd h (by decide)
  · unfold hexDigit at h
    split_ifs at h with hdigit hlower hupper
    · exact (by decide : ' ' ≤ '0').trans hdigit.1
    · exact (by decide : ' ' ≤ 'a').trans hlower.1
    · exact (by decide : ' ' ≤ 'A').trans hupper.1
    · cases h

/-- An address in the grammar has nothing in it that JSON or the bar could be confused by. -/
theorem plainAddress_of_isMacText {text : String} {m : Mac} (h : IsMacText text m) :
    PlainAddress text m := by
  refine ⟨parseMac_of_isMacText h, fun c hc => ?_⟩
  rcases Spells.chars h c hc with hdigit | rfl
  · exact plainChar_of_hexDigit hdigit
  · decide

section

variable {S : Surroundings} {w : World} {b m : String} {bssid station : Mac}

theorem checkInterface_pushes (op : StationOp) {agent : DpmAgent} {v : String}
    {known output : TreeSet String} (hv : agent.interfaceBssid[v]? = some b)
    (hknown : agent.interfaceMac[v]? = some known)
    (hm : m ∈ DpmAgent.stationDifference op known output) :
    ∃ agent' texts, agent.checkInterface v output = some (agent', texts) ∧
      DpmAgent.stationText op.command b m ∈ texts := by
  refine ⟨_, _, DpmAgent.checkInterface_eq hknown hv output, List.mem_append.mpr ?_⟩
  cases op with
  | associate => exact .inl (List.mem_map_of_mem hm)
  | disassociate => exact .inr (List.mem_map_of_mem hm)

theorem runCommand_stationJson (op : StationOp) (hb : parseMac b = some bssid)
    (hm : parseMac m = some station) :
    runCommand (stationJson op.command b m) =
      stationExchange op.operationCode op.alreadyCode op.nodeOp op.command (b, bssid)
        (m, station) := by
  have hcommand : runCommand (stationJson op.command b m) =
      stationCommand op.operationCode op.alreadyCode op.nodeOp (stationJson op.command b m)
        op.command := by
    rw [runCommand_of_command rfl, if_neg op.command_ne.1, if_neg op.command_ne.2]
    cases op with
    | associate => exact if_pos rfl
    | disassociate =>
      rw [if_neg (by decide)]
      exact if_pos rfl
  rw [hcommand]
  rcases stationCommand_cases op.operationCode op.alreadyCode op.nodeOp
    (stationJson op.command b m) op.command with ⟨x, y, hx, hy, heq⟩ | ⟨hnone, -⟩
  · rw [addressOf_stationJson_bssid, hb] at hx
    rw [addressOf_stationJson_station, hm] at hy
    rw [heq, ← Option.some.inj hx, ← Option.some.inj hy]
  · rw [addressOf_stationJson_bssid, addressOf_stationJson_station, hb, hm] at hnone
    simp at hnone

/-- One packet is sent, and when it is confirmed the nodes are told. -/
theorem after_stationExchange (op : StationOp)
    (hconfirmed : (op.request bssid station).Confirmed
      (S.warp (w.history ++ [.packet (.bssid (op.control bssid station))]))) :
    w.after S (stationExchange op.operationCode op.alreadyCode op.nodeOp op.command (b, bssid)
        (m, station)) =
      (w.send [.bssid (op.control bssid station)]).updateBssids S op.nodeOp (b ++ "|" ++ m) := by
  have hfailed := fun reply => Request.failed_iff_two (op.expected_request bssid station) reply
  unfold stationExchange
  refine (after_exchange hconfirmed (op.sendOp_request bssid station).symm hfailed).trans ?_
  rw [after_updateBssids, after_everythingOk]

end

/-- A pass of `timed_check` pushes the text for a new or a lost station of an interface; when
`parse_loop` has come to it, `parse_json` asks WARP for the octets of the two addresses, and
once WARP has confirmed, the agent calls the datapath manager with the text of the station and
the interface of the text of the BSSID. -/
theorem station_command_round_trip {jsonLoads : String → Option Json} (hj : ReadsStations jsonLoads)
    (S : Surroundings) (w : World) (op : StationOp) {agent : DpmAgent} {v b m : String}
    {bssid station : Mac} {known output : TreeSet String}
    (hb : IsMacText b bssid) (hm : IsMacText m station)
    (hv : agent.interfaceBssid[v]? = some b) (hknown : agent.interfaceMac[v]? = some known)
    (hdifference : m ∈ DpmAgent.stationDifference op known output)
    {s : CommandQueue.Threads} {command : String} (hs : CommandQueue.commandQueue.Reachable s)
    (hpushed : s.pushed[s.handed.length]? = some (DpmAgent.stationText op.command b m))
    (hcalling : s.consumer = .calling command)
    (hconfirmed : (op.request bssid station).Confirmed
      (S.warp (w.history ++ [.packet (.bssid (op.control bssid station))]))) :
    (∃ agent' texts, agent.checkInterface v output = some (agent', texts) ∧
      DpmAgent.stationText op.command b m ∈ texts) ∧
    w.after S (parseJson jsonLoads command) =
      { agent := w.agent
        bridge := executeCommand S.newPort S.ofctl w.bridge
          (DpmAgent.call op m (S.getInterfaceName b))
        history := w.history ++
          [.packet (.bssid (op.control bssid station)), .update op.nodeOp (b ++ "|" ++ m)]
        terminated := w.terminated } ∧
    w.agent.sync S.getInterfaceName op.nodeOp (b ++ "|" ++ m) =
      ⟨w.agent, [DpmAgent.call op m (S.getInterfaceName b)], true⟩ ∧
    ∀ malloc, KeepsStations (op.control bssid station)
      ((createBssidControl (op.control bssid station)).buffer malloc) := by
  have hb' := plainAddress_of_isMacText hb
  have hm' := plainAddress_of_isMacText hm
  have hsync : w.agent.sync S.getInterfaceName op.nodeOp (b ++ "|" ++ m) =
      ⟨w.agent, [DpmAgent.call op m (S.getInterfaceName b)], true⟩ :=
    DpmAgent.sync_station op S.getInterfaceName w.agent hb'.no_bar
  -- the queue hands the text over as it was pushed
  obtain rfl : DpmAgent.stationText op.command b m = command :=
    Option.some.inj (hpushed.symm.trans (CommandQueue.pushed_of_calling hs hcalling))
  have hplain : JsonPlain op.command := by cases op <;> decide
  have hparse : parseJson jsonLoads (DpmAgent.stationText op.command b m) =
      runCommand (stationJson op.command b m) := by
    simp only [parseJson, hj _ _ _ hplain hb'.json hm'.json]
  refine ⟨checkInterface_pushes op hv hknown hdifference, ?_, hsync, fun malloc => ?_⟩
  · rw [hparse, runCommand_stationJson op hb'.parse hm'.parse, after_stationExchange op hconfirmed]
    unfold World.updateBssids
    dsimp only [World.send]
    rw [hsync]
    simp
  · exact keepsStations_of_le (show (1 : UInt8).toNat ≤ 40 by decide)

def quietSurroundings : Surroundings :=
  ⟨obligingWarp, fun _ => "wlan0", fun _ _ => none, fullReader⟩

def agentWithBssid : DpmAgent :=
  DpmAgent.register ⟨∅, ∅, ∅⟩ "wlan0" "02:00:00:00:00:0a"

theorem station_command_round_trip_wlan0 :
    (freshWorld.after quietSurroundings (parseJson readStation
      (DpmAgent.stationText macAssociateCmd "02:00:00:00:00:0a" "00:0e:8e:00:00:09"))).history =
        [.packet (.bssid (StationOp.associate.control #v[2, 0, 0, 0, 0, 10]
          #v[0, 0x0e, 0x8e, 0, 0, 9])),
        .update .bssidMacAssociate "02:00:00:00:00:0a|00:0e:8e:00:00:09"] := by
  have hb : IsMacText "02:00:00:00:00:0a" #v[2, 0, 0, 0, 0, 10] := by
    rw [← show printMac #v[2, 0, 0, 0, 0, 10] = "02:00:00:00:00:0a" by decide]
    exact isMacText_printMac _
  have hm : IsMacText "00:0e:8e:00:00:09" #v[0, 0x0e, 0x8e, 0, 0, 9] := by
    rw [← show printMac #v[0, 0x0e, 0x8e, 0, 0, 9] = "00:0e:8e:00:00:09" by decide]
    exact isMacText_printMac _
  obtain ⟨s, hs, hpushed, hcalling⟩ : ∃ s, CommandQueue.commandQueue.Reachable s ∧
      s.pushed[s.handed.length]? = some (DpmAgent.stationText macAssociateCmd "02:00:00:00:00:0a"
        "00:0e:8e:00:00:09") ∧
      s.consumer = .calling (DpmAgent.stationText macAssociateCmd "02:00:00:00:00:0a"
        "00:0e:8e:00:00:09") :=
    ⟨_, Transition.Machine.reachable_of_exec [.push .dpmAgent _, .post .dpmAgent, .parseLoop,
      .parseLoop, .parseLoop] rfl, rfl, rfl⟩
  have hv : agentWithBssid.interfaceBssid["wlan0"]? = some "02:00:00:00:00:0a" := by decide +kernel
  have hknown : agentWithBssid.interfaceMac["wlan0"]? = some ∅ := rfl
  have hnew : "00:0e:8e:00:00:09" ∈
      DpmAgent.stationDifference .associate ∅ (TreeSet.ofList ["00:0e:8e:00:00:09"]) :=
    DpmAgent.mem_toAssociate.mpr ⟨by simp, by simp⟩
  have h := station_command_round_trip readStation_reads quietSurroundings freshWorld .associate
    hb hm hv hknown hnew hs hpushed hcalling (obligingWarp_confirms _ _ _ rfl)
  rw [h.2.1]
  decide

end AuroraRelay
