import AuroraRelay.StationBlocks
import AuroraRelay.StationTable

/-!
# Listing the stations of hostapd

`hostapd_cli all_sta` asks for the first station and then again and again for the one behind
the address it has read last.  Between two requests stations come and go; the listing goes on
from an address, not from a place in the list.
-/

namespace AuroraRelay.Hostapd
open CommsAgent LinkedList StationTable Transition WarpProtocol

def hwaddrLoop : ℕ → List Char → Option (List UInt8)
  | n, a :: b :: rest =>
    (hexDigit a).bind fun a => (hexDigit b).bind fun b =>
      match n, rest with
      | 0, _ => some [a <<< 4 ||| b]
      | n + 1, ':' :: rest => (hwaddrLoop n rest).map fun octets => (a <<< 4 ||| b) :: octets
      | _ + 1, _ => none
  | _, _ => none

def hwaddrAton (txt : List Char) : Option Mac :=
  (hwaddrLoop 5 txt).bind fun octets =>
    if h : octets.length = 6 then some ⟨octets.toArray, h⟩ else none

def failText : List Char := ['F', 'A', 'I', 'L', '\n']

/-- `hostapd_ctrl_iface_sta_mib`; `lines` is what the other modules print of the station. -/
def ctrlIfaceStaMib (hapd : HostapdData) (lines : List Char) : Option ℕ → Option (List Char)
  | none => some failText
  | some sta => (hapd.field StaInfo.addr sta).map fun addr =>
    (macText addr).toList ++ '\n' :: lines

def ctrlIfaceStaFirst (hapd : HostapdData) (lines : List Char) : Option (List Char) :=
  ctrlIfaceStaMib hapd lines hapd.staList

def ctrlIfaceSta (hapd : HostapdData) (lines txtaddr : List Char) : Option (List Char) :=
  match hwaddrAton txtaddr with
  | none => some failText
  | some addr => (apGetSta hapd addr).bind (ctrlIfaceStaMib hapd lines)

def ctrlIfaceStaNext (hapd : HostapdData) (lines txtaddr : List Char) : Option (List Char) :=
  match hwaddrAton txtaddr with
  | none => some failText
  | some addr => (apGetSta hapd addr).bind fun
    | none => some failText
    | some sta => (hapd.field StaInfo.next sta).bind (ctrlIfaceStaMib hapd lines)

def staFirst : List Char := ['S', 'T', 'A', '-', 'F', 'I', 'R', 'S', 'T']

def staCommand : List Char := ['S', 'T', 'A', ' ']

def staNext : List Char := ['S', 'T', 'A', '-', 'N', 'E', 'X', 'T', ' ']

/-- `hostapd_ctrl_iface_receive`, of whose commands these three are about stations.  The last
branch stands for the others as well, `PING` and `MIB` among them, which the source answers. -/
def ctrlIfaceReceive (hapd : HostapdData) (lines buf : List Char) : Option (List Char) :=
  if buf = staFirst then ctrlIfaceStaFirst hapd lines
  else if staCommand.isPrefixOf buf then ctrlIfaceSta hapd lines (buf.drop 4)
  else if staNext.isPrefixOf buf then ctrlIfaceStaNext hapd lines (buf.drop 9)
  else some "UNKNOWN COMMAND\n".toList

/-- The address that `wpa_ctrl_command_sta` takes from a reply, unless it is a failure. -/
def commandSta (buf : List Char) : Option (List Char) :=
  if buf.take 4 = ['F', 'A', 'I', 'L'] then none
  else some ((buf.takeWhile fun c => c ≠ '\x00' ∧ c ≠ '\n').take 31)

/-- The next request of `hostapd_cli_cmd_all_sta`. -/
inductive Client
  | first
  | next (addr : List Char)
  | finished
  deriving DecidableEq

def Client.cmd : Client → Option (List Char)
  | .first => some staFirst
  | .next addr => some ((staNext ++ addr).take 63)
  | .finished => none

/-- `printed` are the replies printed, `start` the stations that there were when the first
request was answered, and `freed` those that have gone since. -/
structure Listing where
  hapd : HostapdData
  client : Client
  printed : List (List Char)
  start : List Mac
  freed : List Mac

def addressLoop (hapd : HostapdData) : ℕ → Option ℕ → List Mac
  | 0, _ => []
  | _ + 1, none => []
  | fuel + 1, some sta =>
    match hapd.memory sta with
    | none => []
    | some info => info.addr :: addressLoop hapd fuel info.next

def addresses (hapd : HostapdData) : List Mac := addressLoop hapd hapd.fuel hapd.staList

inductive Event
  | call (call : Call)
  | request (lines : List Char)

def freedBy (hapd : HostapdData) : Call → List Mac
  | .freeSta sta => (hapd.field StaInfo.addr sta).toList
  | _ => []

def Listing.perform (s : Listing) (call : Call) : Option Listing :=
  (Hostapd.perform s.hapd call).map fun r =>
    { s with hapd := r.1, freed := s.freed ++ freedBy s.hapd call }

def Listing.read (s : Listing) (reply : List Char) : Listing :=
  match commandSta reply with
  | none => { s with client := .finished }
  | some addr => { s with client := .next addr, printed := s.printed ++ [reply] }

/-- What a request finds: the first one fixes the stations that are to be listed. -/
def Listing.started (s : Listing) : Listing :=
  match s.client with
  | .first => { s with start := addresses s.hapd, freed := [] }
  | _ => s

def Listing.request (s : Listing) (lines : List Char) : Option Listing :=
  s.client.cmd.bind fun cmd =>
    (ctrlIfaceReceive s.hapd lines cmd).map fun reply => s.started.read reply

def listing (hapd : HostapdData) : Machine Listing Event where
  init := ⟨hapd, .first, [], [], []⟩
  step s
    | .call call => s.perform call
    | .request lines => s.request lines

/-- The station at which the listing stands does not go. -/
def KeepsPlace (s : Listing) : Event → Prop
  | .call call => call.Valid s.hapd ∧
      ∀ m ∈ freedBy s.hapd call, s.client ≠ .next (macText m).toList
  | .request _ => True

instance (hapd : HostapdData) (call : Call) : Decidable (call.Valid hapd) :=
  match call with
  | .staAdd _ zalloc => inferInstanceAs (Decidable (∀ sta ∈ zalloc, hapd.memory sta = none))
  | .getAid sta => inferInstanceAs (Decidable (hapd.memory sta).isSome)
  | .freeSta sta => inferInstanceAs (Decidable (hapd.memory sta).isSome)

instance (s : Listing) (event : Event) : Decidable (KeepsPlace s event) :=
  match event with
  | .call call =>
    have := List.decidableBAll (fun m => s.client ≠ .next (macText m).toList)
      (freedBy s.hapd call)
    inferInstanceAs (Decidable (call.Valid s.hapd ∧
      ∀ m ∈ freedBy s.hapd call, s.client ≠ .next (macText m).toList))
  | .request _ => inferInstanceAs (Decidable True)

def Listing.names (s : Listing) : List (List Char) :=
  s.printed.map fun reply => reply.takeWhile (· ≠ '\n')

theorem octet_of_digits (octet : UInt8) :
    UInt8.ofNat (octet.toNat / 16) <<< 4 ||| UInt8.ofNat (octet.toNat % 16) = octet := by
  have hall : ∀ a b : Fin 16, (UInt8.ofNat a <<< 4 ||| UInt8.ofNat b).toNat = 16 * a + b := by
    decide
  have hbound := octet.toNat_lt
  apply UInt8.toNat_inj.mp
  have hoctet := hall ⟨octet.toNat / 16, by omega⟩ ⟨octet.toNat % 16, by omega⟩
  simp only at hoctet
  omega

theorem hwaddrLoop_octetText (n : ℕ) (octet : UInt8) (rest : List Char) :
    hwaddrLoop n (octetText octet ++ rest) =
      match n, rest with
      | 0, _ => some [octet]
      | n + 1, ':' :: rest => (hwaddrLoop n rest).map fun octets => octet :: octets
      | _ + 1, _ => none := by
  have hbound := octet.toNat_lt
  have hhigh := hexDigit_lowerHexDigit ⟨octet.toNat / 16, by omega⟩
  have hlow := hexDigit_lowerHexDigit ⟨octet.toNat % 16, by omega⟩
  rw [octetText, List.cons_append, List.cons_append, List.nil_append, hwaddrLoop, hhigh, hlow]
  simp only [Option.bind_some, octet_of_digits]

theorem hwaddrAton_macText (m : Mac) : hwaddrAton (macText m).toList = some m := by
  have hlast (octet : UInt8) : hwaddrLoop 0 (octetText octet) = some [octet] := by
    simpa using hwaddrLoop_octetText 0 octet []
  have hloop : hwaddrLoop 5 (macText m).toList = some [m[0], m[1], m[2], m[3], m[4], m[5]] := by
    simp only [macText, String.toList_ofList, List.append_assoc, List.cons_append,
      hwaddrLoop_octetText, hlast, Option.map_some]
  have hlength : [m[0], m[1], m[2], m[3], m[4], m[5]].length = 6 := rfl
  rw [hwaddrAton, hloop, Option.bind_some, dif_pos hlength]
  congr 1
  ext i hi
  interval_cases i <;> rfl

/-- No reply about a station is taken for a failure. -/
theorem commandSta_reply (m : Mac) (lines : List Char) :
    commandSta ((macText m).toList ++ '\n' :: lines) = some (macText m).toList := by
  have hall : addressChars.all (fun c => decide (c ≠ 'F' ∧ c ≠ '\x00')) = true := by decide
  have hplain : ∀ c ∈ addressChars, c ≠ 'F' ∧ c ≠ '\x00' :=
    fun c hc => of_decide_eq_true (List.all_eq_true.mp hall c hc)
  have hfirst : ((macText m).toList ++ '\n' :: lines).take 4 ≠ ['F', 'A', 'I', 'L'] := by
    intro htake
    have hhead := congrArg List.head? htake
    rw [List.head?_take, if_neg (by decide)] at hhead
    have hne : (macText m).toList ≠ [] := by
      intro hnil
      have hlen := length_macText m
      rw [hnil] at hlen
      cases hlen
    rw [List.head?_append_of_ne_nil _ hne] at hhead
    exact (hplain _ (mem_macText m _ (List.mem_of_mem_head? hhead))).1 rfl
  have hwhile : ((macText m).toList ++ '\n' :: lines).takeWhile (fun c => c ≠ '\x00' ∧ c ≠ '\n') =
      (macText m).toList := by
    rw [List.takeWhile_append_of_pos, List.takeWhile_cons_of_neg (by decide), List.append_nil]
    intro c hc
    have hmem := mem_macText m c hc
    exact decide_eq_true ⟨(hplain c hmem).2, (addressChars_plain c hmem).1⟩
  rw [commandSta, if_neg hfirst, hwhile, List.take_of_length_le]
  rw [length_macText]
  decide

theorem takeWhile_reply (m : Mac) (lines : List Char) :
    ((macText m).toList ++ '\n' :: lines).takeWhile (· ≠ '\n') = (macText m).toList := by
  rw [List.takeWhile_append_of_pos, List.takeWhile_cons_of_neg (by decide), List.append_nil]
  exact Split.forall_ne_of_not_mem (newline_not_mem_macText m)

theorem ctrlIfaceReceive_next (hapd : HostapdData) (lines : List Char) (m : Mac) {cmd : List Char}
    (hcmd : (Client.next (macText m).toList).cmd = some cmd) :
    ctrlIfaceReceive hapd lines cmd = ctrlIfaceStaNext hapd lines (macText m).toList := by
  have hshort : (staNext ++ (macText m).toList).take 63 = staNext ++ (macText m).toList := by
    apply List.take_of_length_le
    rw [List.length_append, length_macText]
    decide
  rw [Client.cmd, hshort, Option.some.injEq] at hcmd
  subst hcmd
  have hfirst : staNext ++ (macText m).toList ≠ staFirst := by
    intro heq
    have hlen := congrArg List.length heq
    rw [List.length_append, length_macText] at hlen
    cases hlen
  rw [ctrlIfaceReceive, if_neg hfirst, if_neg (by simp [staCommand, staNext]),
    if_pos (List.isPrefixOf_iff_prefix.mpr (List.prefix_append _ _))]
  rfl

section

variable {hapd : HostapdData} {table : Table} {lines : List Char}

theorem addressLoop_eq {fuel : ℕ} {head : Option ℕ} {l : Table}
    (h : Chain (hapd.field StaInfo.next) head (l.map Entry.block)) (hlen : l.length < fuel)
    (haddr : ∀ e ∈ l, hapd.field StaInfo.addr e.block = some e.addr) :
    addressLoop hapd fuel head = l.map Entry.addr := by
  induction l generalizing fuel head with
  | nil =>
    obtain rfl := chain_nil_iff.mp h
    cases fuel with
    | zero => cases hlen
    | succ fuel => rfl
  | cons e l ih =>
    obtain ⟨rfl, q, hq, hrest⟩ := chain_cons_iff.mp h
    obtain ⟨info, hinfo, rfl⟩ := exists_info hq
    obtain ⟨he, hl⟩ := List.forall_mem_cons.mp haddr
    rw [HostapdData.field, hinfo, Option.map_some, Option.some.injEq] at he
    cases fuel with
    | zero => cases hlen
    | succ fuel =>
      rw [addressLoop, hinfo]
      dsimp only
      rw [ih hrest (by simpa using hlen) hl, he, List.map_cons]

theorem Represents.addresses (h : Represents hapd table) :
    addresses hapd = table.map Entry.addr :=
  addressLoop_eq h.list h.length_lt h.addr

def replyTo (lines : List Char) (l : Table) : List Char :=
  (l.head?.map fun e => (macText e.addr).toList ++ '\n' :: lines).getD failText

theorem Represents.staMib (h : Represents hapd table) {l : Table} (hl : ∀ e ∈ l, e ∈ table) :
    ctrlIfaceStaMib hapd lines (l.map Entry.block).head? = some (replyTo lines l) := by
  cases l with
  | nil => rfl
  | cons e l =>
    rw [List.map_cons, List.head?_cons, ctrlIfaceStaMib, h.addr e (hl e List.mem_cons_self)]
    rfl

theorem chain_head {next : ℕ → Option (Option ℕ)} {head : Option ℕ} {nodes : List ℕ}
    (h : Chain next head nodes) : head = nodes.head? := by
  cases h with
  | nil => rfl
  | cons _ _ => rfl

theorem Represents.staFirst (h : Represents hapd table) :
    ctrlIfaceReceive hapd lines staFirst = some (replyTo lines table) := by
  rw [ctrlIfaceReceive, if_pos rfl, ctrlIfaceStaFirst, chain_head h.list]
  exact h.staMib fun _ he => he

theorem Represents.staNext (h : Represents hapd table) {before after : Table} {e : Entry}
    (htable : table = before ++ e :: after) {cmd : List Char}
    (hcmd : (Client.next (macText e.addr).toList).cmd = some cmd) :
    ctrlIfaceReceive hapd lines cmd = some (replyTo lines after) := by
  have he : e ∈ table := by simp [htable]
  have hfind : table.find? (·.addr = e.addr) = some e := by
    cases hfound : table.find? (·.addr = e.addr) with
    | none => simpa using List.find?_eq_none.mp hfound e he
    | some e' =>
      have haddr := List.find?_some hfound
      rw [h.addr_injective (List.mem_of_find?_eq_some hfound) he (of_decide_eq_true haddr)]
  have hlist := h.list
  rw [htable, List.map_append, List.map_cons] at hlist
  obtain ⟨-, q, hq, hafter⟩ := chain_cons_iff.mp hlist.drop_before
  rw [ctrlIfaceReceive_next hapd lines e.addr hcmd, ctrlIfaceStaNext, hwaddrAton_macText]
  dsimp only
  rw [h.get, hfind, Option.map_some, Option.bind_some]
  dsimp only
  rw [hq, Option.bind_some, chain_head hafter]
  exact h.staMib fun a ha => by simp [htable, ha]

end

/-- The place of `e` in a later table: behind it are the stations of `after` except those that
the call frees. -/
def KeptPlace (call : Call) (e : Entry) (after later : Table) : Prop :=
  ∃ before e' after', later = before ++ e' :: after' ∧ e'.addr = e.addr ∧
    (after'.map Entry.addr).Sublist (after.map Entry.addr) ∧
    ∀ a ∈ after, (∀ sta, call = .freeSta sta → a.block ≠ sta) → a.addr ∈ after'.map Entry.addr

theorem keptPlace_append {call : Call} {before after : Table} {e : Entry} :
    KeptPlace call e after (before ++ e :: after) :=
  ⟨before, e, after, rfl, rfl, List.Sublist.refl _, fun _ ha _ => List.mem_map_of_mem ha⟩

theorem keptPlace_perform {before after : Table} {e : Entry} (maxNumSta : ℕ) {call : Call}
    (hplace : ∀ sta, call = .freeSta sta → e.block ≠ sta) :
    KeptPlace call e after (Table.perform (before ++ e :: after) maxNumSta call).1 := by
  cases call with
  | staAdd addr zalloc =>
    change KeptPlace _ e after (Table.add (before ++ e :: after) maxNumSta addr zalloc).1
    unfold Table.add
    split
    · exact keptPlace_append
    · split_ifs
      · exact keptPlace_append
      · -- a new station comes in front of the others
        dsimp only
        rw [← List.append_assoc]
        exact keptPlace_append
  | getAid sta =>
    rw [Table.perform]
    split_ifs
    · exact keptPlace_append
    · split
      · exact keptPlace_append
      · rename_i aid _
        refine ⟨Table.setAid before sta aid, if e.block = sta then { e with aid := aid } else e,
          Table.setAid after sta aid, ?_, ?_, ?_, fun a ha _ => ?_⟩
        · simp [Table.setAid]
        · split_ifs <;> rfl
        · rw [map_addr_setAid]
        · rw [map_addr_setAid]
          exact List.mem_map_of_mem ha
  | freeSta sta =>
    refine ⟨Table.without before sta, e, Table.without after sta, ?_, rfl,
      List.filter_sublist.map _, fun a ha hne => ?_⟩
    · simp [Table.perform, Table.without, hplace sta rfl]
    · exact List.mem_map_of_mem (mem_without.mpr ⟨ha, hne sta rfl⟩)

/-- The stations listed and those still to come, `reached` in all: no other than at the
start, in the same order, and of those that were there then all that have not gone. -/
structure Covers (start freed reached : List Mac) : Prop where
  sublist : reached.Sublist start
  complete : ∀ m ∈ start, m ∉ freed → m ∈ reached

def Located (s : Listing) (table : Table) (listed : List Mac) : Prop :=
  match s.client with
  | .first => listed = []
  | .next addr => ∃ before e after, table = before ++ e :: after ∧ addr = (macText e.addr).toList ∧
      Covers s.start s.freed (listed ++ after.map Entry.addr)
  | .finished => Covers s.start s.freed listed

def Replies (P : List Char → Prop) (listed : List Mac) (printed : List (List Char)) : Prop :=
  List.Forall₂ (fun m reply => ∃ lines, P lines ∧ reply = (macText m).toList ++ '\n' :: lines)
    listed printed

structure ListingInv (P : List Char → Prop) (s : Listing) (table : Table) (listed : List Mac) :
    Prop where
  represents : Represents s.hapd table
  replies : Replies P listed s.printed
  nodup : s.start.Nodup
  located : Located s table listed

variable {P : List Char → Prop}

theorem Covers.freed {start freed reached more : List Mac} (h : Covers start freed reached) :
    Covers start (freed ++ more) reached :=
  ⟨h.sublist, fun m hm hnot => h.complete m hm fun hmem => hnot (List.mem_append_left _ hmem)⟩

/-- A call between two requests. -/
theorem ListingInv.perform {s s' : Listing} {table : Table} {listed : List Mac}
    (h : ListingInv P s table listed) {call : Call} (hkeeps : KeepsPlace s (.call call))
    (hs : s.perform call = some s') : ∃ table', ListingInv P s' table' listed := by
  obtain ⟨hvalid, hplace⟩ := hkeeps
  obtain ⟨hapd', hperform, hrep, -⟩ := perform_refines h.represents hvalid
  rw [Listing.perform, hperform, Option.map_some, Option.some.injEq] at hs
  subst hs
  refine ⟨_, hrep, h.replies, h.nodup, ?_⟩
  have hloc := h.located
  unfold Located at hloc ⊢
  cases hclient : s.client with
  | first =>
    rw [hclient] at hloc
    exact hloc
  | next addr =>
    rw [hclient] at hloc
    obtain ⟨before, e, after, htable, rfl, hcovers⟩ := hloc
    have he : e ∈ table := by simp [htable]
    have hkept : KeptPlace call e after (table.perform s.hapd.maxNumSta call).1 := by
      rw [htable]
      refine keptPlace_perform _ fun sta hcall hblock => hplace e.addr ?_ hclient
      rw [hcall, freedBy, ← hblock, h.represents.addr e he]
      exact List.mem_singleton_self _
    obtain ⟨before', e', after', htable', haddr, hsub, hstay⟩ := hkept
    refine ⟨before', e', after', htable', by rw [haddr], ?_⟩
    refine ⟨(hsub.append_left listed).trans hcovers.sublist, fun m hm hnot => ?_⟩
    -- a station behind the place that is not there any more has gone in this call
    have hold : m ∉ s.freed := fun hmem => hnot (List.mem_append_left _ hmem)
    rcases List.mem_append.mp (hcovers.complete m hm hold) with hlisted | hafter
    · exact List.mem_append_left _ hlisted
    · obtain ⟨a, ha, rfl⟩ := List.mem_map.mp hafter
      refine List.mem_append_right _ (hstay a ha fun sta hcall hblock => hnot ?_)
      subst hcall hblock
      have haddr' := h.represents.addr a (by simp [htable, ha])
      refine List.mem_append_right _ ?_
      rw [freedBy, haddr']
      exact List.mem_singleton_self _
  | finished =>
    rw [hclient] at hloc
    exact hloc.freed

/-- The reply to a request moves the listing to the first of the stations that are left. -/
theorem located_reply {s : Listing} {table before left : Table} {listed : List Mac}
    {lines : List Char} (hlines : P lines) (hrep : Represents s.hapd table)
    (htable : table = before ++ left) (hreplies : Replies P listed s.printed)
    (hnodup : s.start.Nodup)
    (hcovers : Covers s.start s.freed (listed ++ left.map Entry.addr)) :
    ∃ listed', ListingInv P (s.read (replyTo lines left)) table listed' := by
  cases left with
  | nil =>
    have hread : s.read (replyTo lines []) = { s with client := .finished } := rfl
    rw [hread]
    refine ⟨listed, hrep, hreplies, hnodup, ?_⟩
    rw [List.map_nil, List.append_nil] at hcovers
    exact hcovers
  | cons e left =>
    have hreply : replyTo lines (e :: left) = (macText e.addr).toList ++ '\n' :: lines := rfl
    rw [hreply, Listing.read, commandSta_reply]
    refine ⟨listed ++ [e.addr], hrep, ?_, hnodup, before, e, left, htable, rfl, ?_⟩
    · exact List.rel_append hreplies (.cons ⟨lines, hlines, rfl⟩ .nil)
    · rw [List.append_assoc]
      exact hcovers

theorem ListingInv.request {s : Listing} {table : Table} {listed : List Mac}
    (h : ListingInv P s table listed) (hmore : s.client ≠ .finished) (lines : List Char)
    (hlines : P lines) :
    ∃ s' listed', s.request lines = some s' ∧ ListingInv P s' table listed' := by
  have hloc := h.located
  unfold Located at hloc
  cases hclient : s.client with
  | first =>
    rw [hclient] at hloc
    subst hloc
    have haddrs := h.represents.addresses
    -- all stations are left at the first request
    have hcovers : Covers (addresses s.hapd) [] ([] ++ table.map Entry.addr) := by
      rw [haddrs]
      exact ⟨List.Sublist.refl _, fun _ hm _ => hm⟩
    obtain ⟨listed', hinv⟩ := located_reply (s := { s with start := addresses s.hapd, freed := [] })
      hlines h.represents (List.nil_append table).symm h.replies (haddrs ▸ h.represents.addrs)
      hcovers
    refine ⟨_, listed', ?_, hinv⟩
    rw [Listing.request, Listing.started, hclient, Client.cmd, Option.bind_some,
      h.represents.staFirst, Option.map_some]
  | next addr =>
    rw [hclient] at hloc
    obtain ⟨before, e, after, htable, rfl, hcovers⟩ := hloc
    have hleft : table = (before ++ [e]) ++ after := by
      rw [htable, List.append_assoc]
      rfl
    obtain ⟨listed', hinv⟩ := located_reply hlines h.represents hleft h.replies h.nodup hcovers
    refine ⟨_, listed', ?_, hinv⟩
    rw [Listing.request, Listing.started, hclient]
    obtain ⟨cmd, hcmd⟩ : ∃ cmd, (Client.next (macText e.addr).toList).cmd = some cmd := ⟨_, rfl⟩
    rw [hcmd, Option.bind_some, h.represents.staNext htable hcmd, Option.map_some]
  | finished => exact absurd hclient hmore

theorem ListingInv.listed_nodup {s : Listing} {table : Table} {listed : List Mac}
    (h : ListingInv P s table listed) : listed.Nodup := by
  have hloc := h.located
  unfold Located at hloc
  split at hloc
  · rw [hloc]
    exact List.nodup_nil
  · obtain ⟨before, e, after, -, -, hcovers⟩ := hloc
    exact (h.nodup.sublist hcovers.sublist).of_append_left
  · exact h.nodup.sublist hloc.sublist

theorem ListingInv.covers {s : Listing} {table : Table} {listed : List Mac}
    (h : ListingInv P s table listed) (hfinished : s.client = .finished) :
    Covers s.start s.freed listed := by
  have hloc := h.located
  unfold Located at hloc
  rwa [hfinished] at hloc

theorem Replies.names {s : Listing} {listed : List Mac} (h : Replies P listed s.printed) :
    s.names = listed.map fun m => (macText m).toList := by
  unfold Listing.names
  generalize s.printed = printed at h
  induction h with
  | nil => rfl
  | cons hreply _ ih =>
    obtain ⟨lines, -, rfl⟩ := hreply
    rw [List.map_cons, List.map_cons, takeWhile_reply, ih]

def Prints (P : List Char → Prop) : Event → Prop
  | .call _ => True
  | .request lines => P lines

instance [DecidablePred P] (event : Event) : Decidable (Prints P event) :=
  match event with
  | .call _ => inferInstanceAs (Decidable True)
  | .request lines => inferInstanceAs (Decidable (P lines))

theorem listingInv_of_reachable {maxNumSta : ℕ} {hapd : HostapdData}
    (hreach : (stations maxNumSta).ReachableIf Call.Valid hapd) {s : Listing}
    (h : (listing hapd).ReachableIf (fun s event => KeepsPlace s event ∧ Prints P event) s) :
    ∃ table listed, ListingInv P s table listed := by
  apply h.invariant (I := fun s => ∃ table listed, ListingInv P s table listed)
  · obtain ⟨table, hrep, -⟩ := represents_of_reachable hreach
    exact ⟨table, [], hrep, .nil, List.nodup_nil, rfl⟩
  · rintro s event s' ⟨table, listed, hinv⟩ ⟨hkeeps, hprints⟩ hs
    cases event with
    | call call =>
      obtain ⟨table', hinv'⟩ := hinv.perform hkeeps hs
      exact ⟨table', listed, hinv'⟩
    | request lines =>
      have hmore : s.client ≠ .finished := by
        intro hfinished
        change s.request lines = some s' at hs
        rw [Listing.request, hfinished] at hs
        cases hs
      obtain ⟨s₁, listed', hs₁, hinv'⟩ := hinv.request hmore lines hprints
      obtain rfl := Option.some.inj (hs₁.symm.trans hs)
      exact ⟨table, listed', hinv'⟩

/-- Whatever stations come and go between the requests, as long as it is not the one at which
the listing stands: `all_sta` prints no station twice, and when it is through it has printed
every station that was there all the time. -/
theorem all_sta_lists_stations {maxNumSta : ℕ} {hapd : HostapdData}
    (hreach : (stations maxNumSta).ReachableIf Call.Valid hapd) {s : Listing}
    (h : (listing hapd).ReachableIf KeepsPlace s) :
    ∃ listed : List Mac, s.names = listed.map (fun m => (macText m).toList) ∧ listed.Nodup ∧
      (s.client = .finished → listed.Sublist s.start ∧ ∀ m ∈ s.start, m ∉ s.freed → m ∈ listed) ∧
      (s.client ≠ .finished → ∀ lines, (s.request lines).isSome) := by
  have hany : (listing hapd).ReachableIf
      (fun s event => KeepsPlace s event ∧ Prints (fun _ => True) event) s :=
    h.mono fun s event hkeeps => ⟨hkeeps, by cases event <;> trivial⟩
  obtain ⟨table, listed, hinv⟩ := listingInv_of_reachable hreach hany
  refine ⟨listed, hinv.replies.names, hinv.listed_nodup, fun hfinished => ?_,
    fun hmore lines => ?_⟩
  · exact ⟨(hinv.covers hfinished).sublist, (hinv.covers hfinished).complete⟩
  · obtain ⟨s', listed', hs', -⟩ := hinv.request hmore lines trivial
    rw [hs']
    rfl

def listedWhileJoining : List Event :=
  [.call (.staAdd #v[2, 0, 0, 0, 0, 5] (some 100)), .call (.staAdd #v[2, 0, 0, 0, 1, 5] (some 200)),
    .request [], .call (.staAdd #v[2, 0, 0, 0, 2, 5] (some 300)), .request [],
    .call (.freeSta 200), .request []]

theorem exists_listedWhileJoining : ∃ s, (listing (stations 2007).init).ReachableIf
      (fun s event => KeepsPlace s event ∧ Prints (· = []) event) s ∧ s.client = .finished ∧
    s.start = [#v[2, 0, 0, 0, 1, 5], #v[2, 0, 0, 0, 0, 5]] ∧ s.freed = [#v[2, 0, 0, 0, 1, 5]] := by
  have hrun : ((listing (stations 2007).init).execIf
      (fun s event => KeepsPlace s event ∧ Prints (· = []) event)
      (listing (stations 2007).init).init listedWhileJoining).map
        (fun s => (s.client, s.start, s.freed)) =
      some (.finished, [#v[2, 0, 0, 0, 1, 5], #v[2, 0, 0, 0, 0, 5]], [#v[2, 0, 0, 0, 1, 5]]) := by
    decide +kernel
  obtain ⟨s, hexec, hs⟩ := Option.map_eq_some_iff.mp hrun
  simp only [Prod.mk.injEq] at hs
  exact ⟨s, Machine.reachableIf_of_execIf .init listedWhileJoining hexec, hs⟩

theorem all_sta_lists_stations_joining : ∃ s : Listing, s.client = .finished ∧
    ∃ listed : List Mac, s.names = listed.map (fun m => (macText m).toList) ∧ listed.Nodup ∧
      #v[2, 0, 0, 0, 0, 5] ∈ listed ∧ #v[2, 0, 0, 0, 2, 5] ∉ listed := by
  obtain ⟨s, hreach, hfinished, hstart, hfreed⟩ := exists_listedWhileJoining
  obtain ⟨listed, hnames, hnodup, hfin, -⟩ :=
    all_sta_lists_stations .init (hreach.mono fun _ _ hc => hc.1)
  obtain ⟨hsub, hcomplete⟩ := hfin hfinished
  refine ⟨s, hfinished, listed, hnames, hnodup, hcomplete _ ?_ ?_, fun hmem => ?_⟩
  · rw [hstart]
    decide
  · rw [hfreed]
    decide
  · have hthird := hsub.subset hmem
    rw [hstart] at hthird
    exact absurd hthird (by decide)

def bareStation (m : Mac) : Station := ⟨m, none, [], []⟩

theorem bare_bareStation (listed : List Mac) : ∀ sta ∈ listed.map bareStation, sta.Bare := by
  intro sta hsta
  obtain ⟨m, -, rfl⟩ := List.mem_map.mp hsta
  exact ⟨fun _ hsm => absurd hsm (Option.not_mem_none _), rfl, rfl⟩

theorem Replies.flatten {listed : List Mac} {printed : List (List Char)}
    (h : Replies (· = []) listed printed) : printed.flatten = allSta (listed.map bareStation) := by
  induction h with
  | nil => rfl
  | cons hreply _ ih =>
    obtain ⟨lines, rfl, rfl⟩ := hreply
    rw [List.flatten_cons, ih]
    rfl

section Polled

variable {maxNumSta : ℕ} {hapd : HostapdData} {s : Listing}

/-- What is read is what is listed, a part of the stations of the start that holds those that
stayed. -/
theorem polled_of_listing (hreach : (stations maxNumSta).ReachableIf Call.Valid hapd)
    (h : (listing hapd).ReachableIf (fun s event => KeepsPlace s event ∧ Prints (· = []) event) s)
    (hfinished : s.client = .finished) (hfits : s.start.length ≤ 56) :
    ∃ listed, Covers s.start s.freed listed ∧
      (∀ i ∈ storedIndices s.printed.flatten, i < outputSize) ∧
      ∀ text, text ∈ outputMacAddr s.printed.flatten ↔ ∃ m ∈ listed, text = macText m := by
  obtain ⟨table, listed, hinv⟩ := listingInv_of_reachable hreach h
  have hcovers := hinv.covers hfinished
  have hlength : (listed.map bareStation).length ≤ 56 := by
    rw [List.length_map]
    exact hcovers.sublist.length_le.trans hfits
  obtain ⟨hstored, hpolled⟩ := polled_of_bare (bare_bareStation listed) hlength
  rw [← hinv.replies.flatten] at hstored hpolled
  refine ⟨listed, hcovers, hstored, fun text => (hpolled text).trans ?_⟩
  simp only [List.mem_map, exists_exists_and_eq_and, bareStation]

end Polled

/-- The round of an open network during which stations come and go: whoever was there all the
time is read, and nobody who was not there at its start. -/
theorem polled_between_start_and_end {maxNumSta : ℕ} {hapd : HostapdData}
    (hreach : (stations maxNumSta).ReachableIf Call.Valid hapd) {s : Listing}
    (h : (listing hapd).ReachableIf (fun s event => KeepsPlace s event ∧ Prints (· = []) event) s)
    (hfinished : s.client = .finished) (hfits : s.start.length ≤ 56) :
    (∀ m ∈ s.start, m ∉ s.freed → macText m ∈ outputMacAddr s.printed.flatten) ∧
      (∀ text ∈ outputMacAddr s.printed.flatten, ∃ m ∈ s.start, text = macText m) ∧
      ∀ i ∈ storedIndices s.printed.flatten, i < outputSize := by
  obtain ⟨listed, hcovers, hstored, hpolled⟩ := polled_of_listing hreach h hfinished hfits
  refine ⟨fun m hm hstayed => ?_, fun text htext => ?_, hstored⟩
  · exact (hpolled _).mpr ⟨m, hcovers.complete m hm hstayed, rfl⟩
  · obtain ⟨m, hm, rfl⟩ := (hpolled text).mp htext
    exact ⟨m, hcovers.sublist.subset hm, rfl⟩

theorem polled_between_start_and_end_joining : ∃ s : Listing, s.client = .finished ∧
    macText #v[2, 0, 0, 0, 0, 5] ∈ outputMacAddr s.printed.flatten ∧
    macText #v[2, 0, 0, 0, 2, 5] ∉ outputMacAddr s.printed.flatten := by
  obtain ⟨s, hreach, hfinished, hstart, hfreed⟩ := exists_listedWhileJoining
  obtain ⟨hstayed, hstarted, -⟩ :=
    polled_between_start_and_end .init hreach hfinished (by rw [hstart]; decide)
  refine ⟨s, hfinished, hstayed _ ?_ ?_, fun hmem => ?_⟩
  · rw [hstart]
    decide
  · rw [hfreed]
    decide
  · obtain ⟨m, hm, htext⟩ := hstarted _ hmem
    rw [hstart, ← macText_injective htext] at hm
    exact absurd hm (by decide)

end AuroraRelay.Hostapd
