import AuroraRelay.Execution
import AuroraRelay.MacText

/-!
# The lines that go to the shell

`execute_command` joins the words of a call with blanks and gives the line to `system`, and
`get_interface_name` puts the text of a BSSID between quotes.  Where these words are addresses
and interface names, the shell reads the line as the words it was made of, and the call of
`datapath_manager.py` is the one that the agent meant.
-/

namespace AuroraRelay
open CommsAgent Interaction Std WarpProtocol

/-- The shell takes the character as it is, in quotes or not. -/
def isShellPlain (c : Char) : Bool := c.isAlphanum || c ∈ ['-', '_', '.', ':', '/']

def PlainWord (word : String) : Prop := word ≠ "" ∧ ∀ c ∈ word.toList, isShellPlain c

namespace DatapathCommand

def verb : DatapathCommand → String
  | .add .. => "add"
  | .remove .. => "remove"
  | .associate .. => "associate"
  | .disassociate .. => "disassociate"

def arguments : DatapathCommand → List String
  | .add v e | .remove v e => [v, e]
  | .associate v e macAddress | .disassociate v e macAddress => [v, e, macAddress]

/-- `BASE_COMMAND_STR` and what the four functions put behind it. -/
def words (socketPath ovsName : String) (c : DatapathCommand) : List String :=
  ["python", "-u", "../datapath_manager/datapath_manager.py", c.verb, socketPath, ovsName] ++
    c.arguments

/-- The line that `execute_command` gives to `system`. -/
def line (socketPath ovsName : String) (c : DatapathCommand) : List Char :=
  [' '].intercalate ((c.words socketPath ovsName).map String.toList)

def Plain (c : DatapathCommand) : Prop := ∀ word ∈ c.arguments, PlainWord word

end DatapathCommand

def callCommands (S : Surroundings) (w : World) : Call → List DatapathCommand
  | .updateBssids op text => (w.agent.sync S.getInterfaceName op text).commands
  | _ => []

def World.commands {α : Type} (S : Surroundings) : World → Relay α → List DatapathCommand
  | _, .ret _ => []
  | w, .call c k => callCommands S w c ++ World.commands S (handle S w c).2 (k (handle S w c).1)

def IsAddressText (text : String) : Prop := ∃ m, IsMacText text m

/-- The addresses that a command hands on, to the lookup and to the switch, are addresses. -/
def NamesAddresses (jsonLoads : String → Option Json) (command : String) : Prop :=
  ∀ P ∈ planOf jsonLoads command, IsAddressText (DpmAgent.beforeBar P.text) ∧
    IsAddressText (DpmAgent.afterBar P.text)

def PlainNames (getInterfaceName : String → String) : Prop :=
  ∀ bssid, ∀ c ∈ (getInterfaceName bssid).toList, isShellPlain c

def KnowsAddresses (agent : DpmAgent) : Prop :=
  ∀ (v : String) (stations : TreeSet String), agent.interfaceMac[v]? = some stations →
    ∀ text ∈ stations, IsAddressText text

/-- The stations that the agent keeps are addresses, and so are those that it was told of. -/
structure Addressed (w : World) : Prop where
  agent : KnowsAddresses w.agent
  history : ∀ op text, .update op text ∈ w.history → IsAddressText (DpmAgent.afterBar text)

theorem Addressed.send {w : World} (h : Addressed w) (packets : List ControlPacket) :
    Addressed (w.send packets) := by
  refine ⟨h.agent, fun op text htext => ?_⟩
  rcases List.mem_append.mp htext with hold | hnew
  · exact h.history op text hold
  · obtain ⟨packet, -, hpacket⟩ := List.mem_map.mp hnew
    cases hpacket

end AuroraRelay
