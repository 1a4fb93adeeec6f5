import AuroraRelay.Lib.Interaction
import AuroraRelay.WarpProtocol

/-!
# The command interpreter of the relay

`parse_json` of `comms_agent.cpp` as a program over the calls it makes: control
packets handed to the WARP agent, timed waits for the answer, the response slot and
`update_bssids`.  The JSON library is a parameter, everything after it is not.
-/

namespace AuroraRelay.CommsAgent
open Interaction WarpProtocol

/-- A value of the JSON library; nothing reads the value of a real. -/
inductive Json
  | null
  | boolean (value : Bool)
  | integer (value : ℤ)
  | real
  | string (value : String)
  | array (elements : List Json)
  | object (members : List (String × Json))

/-- `json_object_get`, which accepts a null pointer and values that are no objects. -/
def objectGet : Option Json → String → Option Json
  | some (.object members), key => members.lookup key
  | _, _ => none

abbrev radioSetCmd : String := "_radio_set_command"
abbrev radioBulkSetCmd : String := "_bulk_radio_set_command"
abbrev uciDeleteSection : String := "_delete_section_name"
abbrev uciDeleteBss : String := "_delete_bss_index"
abbrev macAssociateCmd : String := "_mac_associate"
abbrev macDisassociateCmd : String := "_mac_disassociate"

abbrev jsonCommand : String := "command"
abbrev jsonChanges : String := "changes"
abbrev jsonMacAddress : String := "macaddr"
abbrev jsonChannel : String := "channel"
abbrev jsonHwMode : String := "hwmode"
abbrev jsonTxPower : String := "txpower"
abbrev jsonDisabled : String := "disabled"
abbrev jsonBssid : String := "bssid"
abbrev jsonRadio : String := "radio"
abbrev responseHeader : String := "111 "

abbrev returnCodeOk : UInt8 := 0x00
abbrev returnCodeError : UInt8 := 0x01
abbrev returnCodeSendResponse : UInt8 := 0x02
abbrev returnCodeNoResponse : UInt8 := 0x04

def errorMsg (command message : String) : String :=
  responseHeader ++ "\x7b\"command\": \"" ++ command ++
    "\", \"changes\": \x7b\"success\": false, \"error\": \"" ++ message ++ "\"\x7d\x7d"

def successMsg (command radio message : String) : String :=
  responseHeader ++ "\x7b\"command\": \"" ++ command ++ "\", \"radio\": \"" ++ radio ++
    "\", \"changes\": \x7b\"success\": true, \"error\": \"" ++ message ++ "\"\x7d\x7d"

def testMsg : String :=
  "\x7b \"changes\": \x7b \"success\": True, \"message\": \"Test.\"\x7d \x7d"

def isSpace (c : Char) : Bool :=
  c = ' ' || c = '\t' || c = '\n' || c = '\x0b' || c = '\x0c' || c = '\r'

def hexDigit (c : Char) : Option UInt8 :=
  if '0' ≤ c ∧ c ≤ '9' then some (UInt8.ofNat (c.toNat - '0'.toNat))
  else if 'a' ≤ c ∧ c ≤ 'f' then some (UInt8.ofNat (c.toNat - 'a'.toNat + 10))
  else if 'A' ≤ c ∧ c ≤ 'F' then some (UInt8.ofNat (c.toNat - 'A'.toNat + 10))
  else none

/-- The conversion `%02hhx` of `sscanf`, as the GNU C library makes it: blanks are skipped,
then at most two characters are taken, of a sign, a prefix `0x` and hexadecimal digits. -/
def scanHexByte (input : List Char) : Option (UInt8 × List Char) :=
  match input.dropWhile isSpace with
  | [] => none
  | [c] => (hexDigit c).map fun v => (v, [])
  | c :: d :: rest =>
    if c = '+' then (hexDigit d).map fun v => (v, rest)
    else if c = '-' then (hexDigit d).map fun v => (-v, rest)
    else
      match hexDigit c, hexDigit d with
      | none, _ => none
      | some v, some w => some (16 * v + w, rest)
      -- a bare prefix uses up the width, and its `0` is what is converted
      | some v, none =>
        if c = '0' ∧ (d = 'x' ∨ d = 'X') then some (v, rest) else some (v, d :: rest)

def scanColonHexByte : List Char → Option (UInt8 × List Char)
  | ':' :: input => scanHexByte input
  | _ => none

/-- `none` is the return code for an error. -/
def parseMac (origin : String) : Option Mac := do
  let (b0, input) ← scanHexByte origin.toList
  let (b1, input) ← scanColonHexByte input
  let (b2, input) ← scanColonHexByte input
  let (b3, input) ← scanColonHexByte input
  let (b4, input) ← scanColonHexByte input
  let (b5, _) ← scanColonHexByte input
  return #v[b0, b1, b2, b3, b4, b5]

def parseHwmode (hwmode : String) : UInt8 :=
  let a : UInt8 := if 'a' ∈ hwmode.toList then 0x08 else 0x00
  let b : UInt8 := if 'b' ∈ hwmode.toList then 0x04 else 0x00
  let g : UInt8 := if 'g' ∈ hwmode.toList then 0x02 else 0x00
  let n : UInt8 := if 'n' ∈ hwmode.toList then 0x01 else 0x00
  a ||| b ||| g ||| n

/-- `BSSID_NODE_OPS`. -/
inductive NodeOp
  | bssidAdd
  | bssidRemove
  | bssidCheck
  | bssidMacAssociate
  | bssidMacDisassociate
  | sendMacAddrCntrl
  | sendTransmissionCntrl
  | sendBssidCntrl
  | macAdd
  | macRemove
  | transmissionCntrl
  | bssidCntrl
  | commandAdd
  deriving DecidableEq

inductive ControlPacket
  | mac (info : MacControl)
  | transmission (info : TransmissionControl)
  | bssid (info : BssidControl)
  deriving DecidableEq

def ControlPacket.encode : ControlPacket → Encoding
  | .mac info => createMacControl info
  | .transmission info => createTransmissionControl info
  | .bssid info => createBssidControl info

/-- What `parse_json` calls: the WARP agent, the response slot and the group of
nodes that follow the configured addresses. -/
inductive Call
  | sync (op : NodeOp) (packet : ControlPacket)
  | timedSync (op : NodeOp) (timeout : ℕ)
  | setMessage (message : String)
  | updateBssids (op : NodeOp) (bssid : String)
  deriving DecidableEq

/-- What `timed_sync` returns and what it leaves in `response`. -/
structure TimedReply where
  returnCode : ℤ
  response : UInt8
  deriving DecidableEq

abbrev Reply : Call → Type
  | .timedSync _ _ => TimedReply
  | _ => Unit

abbrev Relay := Prog Call Reply

def sync (op : NodeOp) (packet : ControlPacket) : Relay Unit := Prog.perform (Call.sync op packet)

def timedSync (op : NodeOp) (timeout : ℕ) : Relay TimedReply :=
  Prog.perform (Call.timedSync op timeout)

def updateBssids (op : NodeOp) (bssid : String) : Relay Unit :=
  Prog.perform (Call.updateBssids op bssid)

def setMsg (message : String) : Relay Unit := Prog.perform (Call.setMessage message)

def setErrorMsg (command message : String) : Relay Unit := setMsg (errorMsg command message)

def setSuccessMsg (command radio message : String) : Relay Unit :=
  setMsg (successMsg command radio message)

def nodeSyncs {ν : Type} (group : List ν) (op : NodeOp) (bssid : String) :
    List (ν × NodeOp × String) :=
  group.map fun node => (node, op, bssid)

def warpSync : NodeOp → ControlPacket → List ControlPacket
  | .sendMacAddrCntrl, packet => [packet]
  | .sendTransmissionCntrl, packet => [packet]
  | .sendBssidCntrl, packet => [packet]
  | _, _ => []

abbrev timeout : ℕ := 500

def defaultTransmissionControl (bssid : Mac) : TransmissionControl where
  totalNumElement := 1
  bssid := bssid
  disabled := 0
  txPower := 0
  channel := 2
  rate := 1
  hwMode := 0
  operationCode := 0

def byteOfInteger (value : ℤ) : UInt8 := UInt8.ofNat (value % 256).toNat

def errorResponse (command message : String) : Relay UInt8 := do
  setErrorMsg command message
  return returnCodeError ||| returnCodeSendResponse

def everythingOk (ifSendResponse : UInt8) (command radio : String) : Relay UInt8 := do
  if ifSendResponse = returnCodeSendResponse then
    setSuccessMsg command radio ""
  return returnCodeOk ||| ifSendResponse

def configureTransmission (changes : Option Json) (command radio bssid : String)
    (macAddress : Mac) : Relay UInt8 := do
  -- the address is parsed again here, with the same result
  let transmissionControl := defaultTransmissionControl macAddress
  let some (.integer channel) := objectGet changes jsonChannel
    | errorResponse command "Invalid channel format."
  let some (.string hwmode) := objectGet changes jsonHwMode
    | errorResponse command "Invalid hw_mode format"
  let some (.integer txPower) := objectGet changes jsonTxPower
    | errorResponse command "Invalid tx_power format."
  let some (.integer disabled) := objectGet changes jsonDisabled
    | errorResponse command "Invalid disabled format."
  sync .sendTransmissionCntrl (.transmission { transmissionControl with
    channel := byteOfInteger channel
    hwMode := parseHwmode hwmode
    txPower := byteOfInteger txPower
    disabled := byteOfInteger disabled })
  let reply ← timedSync .transmissionCntrl timeout
  if reply.returnCode = -1 ∨ reply.response ≠ transmissionConfigureSuccessCode then
    errorResponse command
      "WARP failed to set up the configuration requested, or the request timed out."
  else
    updateBssids .bssidAdd bssid
    everythingOk returnCodeSendResponse command radio

def radioSet (root : Json) (command : String) : Relay UInt8 := do
  let changes := objectGet root jsonChanges
  let some (.object _) := changes
    | errorResponse command "\"changes\" is not a valid json object"
  let some (.string radio) := objectGet root jsonRadio
    | errorResponse command "radio is not a valid string"
  let some (.string bssid) := objectGet changes jsonMacAddress
    | errorResponse command "macaddr is not a valid string"
  let some macAddress := parseMac bssid
    | errorResponse command "Invalid mac address in json object."
  sync .sendMacAddrCntrl (.mac ⟨macAddCode, macAddress⟩)
  let reply ← timedSync .macAdd timeout
  if reply.returnCode = -1 ∨ reply.response ≠ macAddCode then
    errorResponse command "WARP failed to add mac address, or the request timed out."
  else
    configureTransmission changes command radio bssid macAddress

def removeMac (command radio bssid : String) : Relay UInt8 := do
  let some macAddress := parseMac bssid
    | errorResponse command "Invalid mac address in json object."
  sync .sendMacAddrCntrl (.mac ⟨macRemoveCode, macAddress⟩)
  let reply ← timedSync .macRemove timeout
  if reply.returnCode = -1 ∨ reply.response ≠ macRemoveCode then
    errorResponse command "WARP failed to remove mac address, or the request timed out."
  else
    updateBssids .bssidRemove bssid
    everythingOk returnCodeSendResponse command radio

/-- Unlike the other commands, this one does not check that `changes` is an object. -/
def deleteBssid (root : Json) (command : String) : Relay UInt8 := do
  let changes := objectGet root jsonChanges
  let some (.string radio) := objectGet root jsonRadio
    | errorResponse command "radio is not a valid string"
  let some (.string bssid) := objectGet changes jsonMacAddress
    | errorResponse command "macaddr is not a string."
  let some bssidAddress := parseMac bssid
    | errorResponse command "Invalid mac address in json object."
  sync .sendBssidCntrl (.bssid ⟨0, bssidAddress, bssidStationClearCode, [], rfl⟩)
  let reply ← timedSync .bssidCntrl timeout
  if reply.returnCode = -1 ∨ reply.response ≠ bssidStationClearCode then
    errorResponse command
      "WARP failed to clear station associations, or the request timed out."
  else
    removeMac command radio bssid

/-- The two commands for one station of one BSSID: the operation code of the packet,
the second answer taken for a success, and the operation of the update.  They
answer the controller in no case. -/
def stationCommand (operationCode alreadyCode : UInt8) (op : NodeOp) (root : Json)
    (command : String) : Relay UInt8 := do
  let changes := objectGet root jsonChanges
  let some (.object _) := changes | return returnCodeError ||| returnCodeNoResponse
  let some (.string bssid) := objectGet changes jsonBssid
    | return returnCodeError ||| returnCodeNoResponse
  let some (.string macAddr) := objectGet changes jsonMacAddress
    | return returnCodeError ||| returnCodeNoResponse
  let some bssidAddress := parseMac bssid | return returnCodeError ||| returnCodeNoResponse
  let some station := parseMac macAddr | return returnCodeError ||| returnCodeNoResponse
  sync .sendBssidCntrl (.bssid ⟨1, bssidAddress, operationCode, [station], rfl⟩)
  let reply ← timedSync .bssidCntrl timeout
  if reply.returnCode = -1 ∨ ¬(reply.response = operationCode ∨ reply.response = alreadyCode) then
    return returnCodeError ||| returnCodeNoResponse
  else
    updateBssids op (bssid ++ "|" ++ macAddr)
    everythingOk returnCodeNoResponse command ""

def macAssociate : Json → String → Relay UInt8 :=
  stationCommand bssidStationAssociateCode bssidStationExistedCode .bssidMacAssociate

def macDisassociate : Json → String → Relay UInt8 :=
  stationCommand bssidStationDisassociateCode bssidStationNotExistedCode .bssidMacDisassociate

inductive StationOp
  | associate
  | disassociate

namespace StationOp

def command : StationOp → String
  | .associate => macAssociateCmd
  | .disassociate => macDisassociateCmd

def nodeOp : StationOp → NodeOp
  | .associate => .bssidMacAssociate
  | .disassociate => .bssidMacDisassociate

def operationCode : StationOp → UInt8
  | .associate => bssidStationAssociateCode
  | .disassociate => bssidStationDisassociateCode

def alreadyCode : StationOp → UInt8
  | .associate => bssidStationExistedCode
  | .disassociate => bssidStationNotExistedCode

end StationOp

def runCommand (root : Json) : Relay UInt8 := do
  let .object _ := root | return returnCodeError ||| returnCodeNoResponse
  let some (.string command) := objectGet root jsonCommand
    | return returnCodeError ||| returnCodeNoResponse
  if command = radioSetCmd ∨ command = radioBulkSetCmd then
    radioSet root command
  else if command = uciDeleteSection ∨ command = uciDeleteBss then
    deleteBssid root command
  else if command = macAssociateCmd then
    macAssociate root command
  else if command = macDisassociateCmd then
    macDisassociate root command
  else
    everythingOk returnCodeNoResponse command ""

/-- `jsonLoads` is `json_loads` of the JSON library, `none` a syntax error. -/
def parseJson (jsonLoads : String → Option Json) (jsonString : String) : Relay UInt8 :=
  match jsonLoads jsonString with
  | some root => runCommand root
  | none => do
    if jsonString = "test" then
      setMsg testMsg
      return returnCodeOk ||| returnCodeSendResponse
    else
      return returnCodeError ||| returnCodeNoResponse

end AuroraRelay.CommsAgent
