import Mathlib.Data.BitVec
import AuroraRelay.Lib.LinkedList
import AuroraRelay.Lib.Transition
import AuroraRelay.WarpProtocol

/-!
# The stations of hostapd

The access point whose stations the relay polls keeps each station in a block of its own.
All blocks are linked in one list, those with the same last byte of the address in a second
one, and a bit map tells which association identifiers are taken.
-/

namespace AuroraRelay.Hostapd
open LinkedList Transition WarpProtocol

structure StaInfo where
  next : Option ℕ
  hnext : Option ℕ
  addr : Mac
  aid : ℕ

abbrev aidWords : ℕ := 63

/-- `struct hostapd_data`, with the blocks that are allocated for stations. -/
structure HostapdData where
  memory : ℕ → Option StaInfo
  staList : Option ℕ
  staHash : UInt8 → Option ℕ
  numSta : ℤ
  staAid : ℕ → BitVec 32
  maxNumSta : ℕ

def staHashOf (addr : Mac) : UInt8 := addr.get 5

namespace HostapdData

/-- One field of all blocks; reading it fails where no block is. -/
def field {β : Type} (hapd : HostapdData) (f : StaInfo → β) (p : ℕ) : Option β :=
  (hapd.memory p).map f

def write (hapd : HostapdData) (p : ℕ) (f : StaInfo → StaInfo) : Option HostapdData :=
  (hapd.memory p).map fun info =>
    { hapd with memory := Function.update hapd.memory p (some (f info)) }

def hasAddr (hapd : HostapdData) (addr : Mac) (p : ℕ) : Bool :=
  hapd.field StaInfo.addr p = some addr

/-- A loop over more blocks than there are stations does not end. -/
def fuel (hapd : HostapdData) : ℕ := hapd.numSta.toNat + 1

end HostapdData

def apGetSta (hapd : HostapdData) (addr : Mac) : Option (Option ℕ) :=
  find (hapd.field StaInfo.hnext) (hapd.hasAddr addr) hapd.fuel (hapd.staHash (staHashOf addr))

def apStaListDel (hapd : HostapdData) (sta : ℕ) : Option HostapdData :=
  (hapd.field StaInfo.next sta).bind fun behind =>
    if hapd.staList = some sta then some { hapd with staList := behind }
    else
      (find (hapd.field StaInfo.next) (fun p => hapd.field StaInfo.next p = some (some sta))
        hapd.fuel hapd.staList).bind fun
      | none => some hapd
      | some tmp => hapd.write tmp fun info => { info with next := behind }

def apStaHashAdd (hapd : HostapdData) (sta : ℕ) : Option HostapdData :=
  (hapd.field StaInfo.addr sta).bind fun addr =>
    (hapd.write sta fun info => { info with hnext := hapd.staHash (staHashOf addr) }).map
      fun hapd => { hapd with
        staHash := Function.update hapd.staHash (staHashOf addr) (some sta) }

def apStaHashDel (hapd : HostapdData) (sta : ℕ) : Option HostapdData :=
  (hapd.field StaInfo.addr sta).bind fun addr =>
    match hapd.staHash (staHashOf addr) with
    | none => some hapd
    | some s =>
      if hapd.hasAddr addr s then
        (hapd.field StaInfo.hnext s).map fun behind =>
          { hapd with staHash := Function.update hapd.staHash (staHashOf addr) behind }
      else
        (findBefore (hapd.field StaInfo.hnext) (hapd.hasAddr addr) hapd.fuel s).bind fun s =>
          (hapd.field StaInfo.hnext s).bind fun
          | none => some hapd
          | some found => (hapd.field StaInfo.hnext found).bind fun behind =>
            hapd.write s fun info => { info with hnext := behind }

def bit (j : ℕ) : BitVec 32 := 1#32 <<< j

def apFreeSta (hapd : HostapdData) (sta : ℕ) : Option HostapdData :=
  (hapd.field StaInfo.aid sta).bind fun aid =>
    (apStaHashDel hapd sta).bind fun hapd =>
      (apStaListDel hapd sta).map fun hapd => { hapd with
        staAid :=
          if aid > 0 then
            Function.update hapd.staAid ((aid - 1) / 32)
              (hapd.staAid ((aid - 1) / 32) &&& ~~~bit ((aid - 1) % 32))
          else hapd.staAid
        numSta := hapd.numSta - 1
        memory := Function.update hapd.memory sta none }

/-- `zalloc` is the block that `os_zalloc` returns, if it has one. -/
def apStaAdd (hapd : HostapdData) (addr : Mac) (zalloc : Option ℕ) :
    Option (HostapdData × Option ℕ) :=
  (apGetSta hapd addr).bind fun
  | some sta => some (hapd, some sta)
  | none =>
    if hapd.numSta ≥ hapd.maxNumSta then some (hapd, none)
    else
      match zalloc with
      | none => some (hapd, none)
      | some sta =>
        (apStaHashAdd { hapd with
            memory := Function.update hapd.memory sta (some ⟨hapd.staList, none, addr, 0⟩)
            staList := some sta
            numSta := hapd.numSta + 1 } sta).map fun hapd => (hapd, some sta)

def bitLoop (word : BitVec 32) : ℕ → ℕ → ℕ
  | 0, j => j
  | n + 1, j => if word &&& bit j = 0 then j else bitLoop word n (j + 1)

def wordLoop (words : ℕ → BitVec 32) : ℕ → ℕ → Option (ℕ × ℕ)
  | 0, _ => none
  | n + 1, i =>
    if words i = BitVec.allOnes 32 then wordLoop words n (i + 1)
    else
      let j := bitLoop (words i) 32 0
      if j < 32 then some (i, j) else wordLoop words n (i + 1)

/-- The new state and the return value. -/
def hostapdGetAid (hapd : HostapdData) (sta : ℕ) : Option (HostapdData × ℤ) :=
  (hapd.field StaInfo.aid sta).bind fun old =>
    if old > 0 then some (hapd, 0)
    else
      match wordLoop hapd.staAid aidWords 0 with
      | none => some (hapd, -1)
      | some (i, j) =>
        let aid := i * 32 + j + 1
        if aid > 2007 then some (hapd, -1)
        else
          (hapd.write sta fun info => { info with aid := aid }).map fun hapd =>
            ({ hapd with staAid := Function.update hapd.staAid i (hapd.staAid i ||| bit j) }, 0)

inductive Call
  | staAdd (addr : Mac) (zalloc : Option ℕ)
  | getAid (sta : ℕ)
  | freeSta (sta : ℕ)

inductive Returned
  | station (sta : Option ℕ)
  | status (code : ℤ)
  | nothing
  deriving DecidableEq

/-- `none` if the call reads or writes a block that is not allocated, or does not return. -/
def perform (hapd : HostapdData) : Call → Option (HostapdData × Returned)
  | .staAdd addr zalloc => (apStaAdd hapd addr zalloc).map fun (hapd, sta) => (hapd, .station sta)
  | .getAid sta => (hostapdGetAid hapd sta).map fun (hapd, code) => (hapd, .status code)
  | .freeSta sta => (apFreeSta hapd sta).map fun hapd => (hapd, .nothing)

/-- The callers pass stations that are allocated, and a new block is not one of them. -/
def Call.Valid (hapd : HostapdData) : Call → Prop
  | .staAdd _ zalloc => ∀ sta ∈ zalloc, hapd.memory sta = none
  | .getAid sta => (hapd.memory sta).isSome
  | .freeSta sta => (hapd.memory sta).isSome

def stations (maxNumSta : ℕ) : Machine HostapdData Call where
  init := ⟨fun _ => none, none, fun _ => none, 0, fun _ => 0, maxNumSta⟩
  step hapd call := (perform hapd call).map Prod.fst

/-- A station as a table has it: its block, its address and its identifier, zero if it has
none. -/
structure Entry where
  block : ℕ
  addr : Mac
  aid : ℕ

abbrev Table := List Entry

def Table.add (table : Table) (maxNumSta : ℕ) (addr : Mac) (zalloc : Option ℕ) :
    Table × Option ℕ :=
  match table.find? (·.addr = addr) with
  | some e => (table, some e.block)
  | none =>
    if table.length ≥ maxNumSta then (table, none)
    else (zalloc.toList.map (⟨·, addr, 0⟩) ++ table, zalloc)

def Table.freeAid (table : Table) : Option ℕ :=
  (List.range' 1 2007).find? fun aid => ∀ e ∈ table, e.aid ≠ aid

def Table.setAid (table : Table) (sta aid : ℕ) : Table :=
  table.map fun e => if e.block = sta then { e with aid := aid } else e

def Table.without (table : Table) (sta : ℕ) : Table := table.filter (·.block ≠ sta)

def Table.perform (table : Table) (maxNumSta : ℕ) : Call → Table × Returned
  | .staAdd addr zalloc =>
    ((table.add maxNumSta addr zalloc).1, .station (table.add maxNumSta addr zalloc).2)
  | .getAid sta =>
    if ∃ e ∈ table, e.block = sta ∧ e.aid > 0 then (table, .status 0)
    else
      match table.freeAid with
      | none => (table, .status (-1))
      | some aid => (table.setAid sta aid, .status 0)
  | .freeSta sta => (table.without sta, .nothing)

def aidBit (words : ℕ → BitVec 32) (k : ℕ) : Bool := (words (k / 32)).getLsbD (k % 32)

/-- The blocks are linked as the table says. -/
structure Represents (hapd : HostapdData) (table : Table) : Prop where
  list : Chain (hapd.field StaInfo.next) hapd.staList (table.map Entry.block)
  buckets : ∀ b, Chain (hapd.field StaInfo.hnext) (hapd.staHash b)
    ((table.filter fun e => staHashOf e.addr = b).map Entry.block)
  addr : ∀ e ∈ table, hapd.field StaInfo.addr e.block = some e.addr
  aid : ∀ e ∈ table, hapd.field StaInfo.aid e.block = some e.aid
  /-- No block is lost. -/
  owned : ∀ p, (hapd.memory p).isSome → ∃ e ∈ table, e.block = p
  addrs : (table.map Entry.addr).Nodup
  numSta : hapd.numSta = table.length
  room : table.length ≤ hapd.maxNumSta
  bits : ∀ k, aidBit hapd.staAid k = true ↔ ∃ e ∈ table, e.aid = k + 1
  aids : table.Pairwise fun e e' => e.aid ≠ 0 → e.aid ≠ e'.aid
  aidLe : ∀ e ∈ table, e.aid ≤ 2007

end AuroraRelay.Hostapd
