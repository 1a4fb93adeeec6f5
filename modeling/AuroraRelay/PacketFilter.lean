import Mathlib.Logic.Relation
import Mathlib.Tactic.SplitIfs
import AuroraRelay.Lib.Transition
import AuroraRelay.WarpProtocol

/-!
# Packet filters

The filters of `filters/`, objects that point to each other.  `PacketFilter::filter` asks its
decorator and itself with `internal_filtering`, so that it never gets behind the first
decorator, and the decorator that a management filter is given goes to a field of its own
class, which `filter` does not read.
-/

namespace AuroraRelay.PacketFilter
open Transition WarpProtocol

/-- A layer of a packet: an 802.11 frame, of two bits of type and four of subtype, or
anything else. -/
inductive Layer
  | dot11 (type : Fin 4) (subtype : Fin 16)
  | other

abbrev Packet := List Layer

/-- `rfind_pdu<Dot11>`; it throws if no layer is an 802.11 frame. -/
def rfindPdu : Packet → Option (Fin 4 × Fin 16)
  | [] => none
  | .dot11 type subtype :: _ => some (type, subtype)
  | .other :: inner => rfindPdu inner

abbrev management : Fin 4 := 0

/-- The classes with their own fields; an address is the place of an object on the heap. -/
inductive Class
  | packetFilter
  /-- The field is there beside the one of the base class; it is only written by
  `set_decorator`. -/
  | managementFilter (decorator : Option ℕ)
  | dot11Filter (mac : Mac) (type subtype : Fin 4)
  deriving DecidableEq

structure Filter where
  /-- The field of the base class. -/
  decorator : Option ℕ
  cls : Class
  deriving DecidableEq

abbrev Heap := List Filter

def internalFiltering (this : Filter) (packet : Packet) : Bool :=
  match this.cls with
  | .packetFilter => true
  | .managementFilter _ =>
    match rfindPdu packet with
    | some (type, _) => type = management
    | none => false
  | .dot11Filter _ type subtype =>
    match rfindPdu packet with
    | some (frameType, frameSubtype) =>
      frameType = type && frameSubtype.val = subtype.val
    | none => false

def filter (heap : Heap) (this : Filter) (packet : Packet) : Bool :=
  let internalResult :=
    match this.decorator.bind (heap[·]?) with
    | some decorator => internalFiltering decorator packet
    | none => true
  internalResult && internalFiltering this packet

inductive Construction
  | packetFilter (extra : Option ℕ)
  | managementFilter
  | dot11Filter (mac : Mac) (type subtype : Fin 4)
  | setDecorator (filter : ℕ) (decorator : Option ℕ)
  deriving DecidableEq

def Valid (heap : Heap) (pointer : Option ℕ) : Prop := ∀ p ∈ pointer, p < heap.length

instance (heap : Heap) (pointer : Option ℕ) : Decidable (Valid heap pointer) :=
  inferInstanceAs (Decidable (∀ p ∈ pointer, _))

def construction : Machine Heap Construction where
  init := []
  step heap
    | .packetFilter extra =>
      if Valid heap extra then some (heap ++ [⟨extra, .packetFilter⟩]) else none
    | .managementFilter => some (heap ++ [⟨none, .managementFilter none⟩])
    | .dot11Filter mac type subtype => some (heap ++ [⟨none, .dot11Filter mac type subtype⟩])
    | .setDecorator filter decorator =>
      match heap[filter]? with
      | some ⟨inherited, .managementFilter _⟩ =>
        if Valid heap decorator then
          some (heap.set filter ⟨inherited, .managementFilter decorator⟩)
        else none
      | _ => none

/-- Only the constructor of the base class sets the decorator that `filter` reads. -/
def Undecorated (heap : Heap) : Prop := ∀ f ∈ heap, f.cls ≠ .packetFilter → f.decorator = none

theorem undecorated_append {heap : Heap} {f : Filter} (h : Undecorated heap)
    (hf : f.cls ≠ .packetFilter → f.decorator = none) : Undecorated (heap ++ [f]) := by
  intro g hg
  rcases List.mem_append.mp hg with hg | hg
  · exact h g hg
  · rw [List.mem_singleton.mp hg]
    exact hf

theorem undecorated_step {heap heap' : Heap} {c : Construction} (h : Undecorated heap)
    (hs : construction.step heap c = some heap') : Undecorated heap' := by
  cases c with
  | packetFilter extra =>
    obtain ⟨-, hheap⟩ := Option.ite_none_right_eq_some.mp hs
    obtain rfl := Option.some.inj hheap
    exact undecorated_append h fun hcls => absurd rfl hcls
  | managementFilter =>
    obtain rfl := Option.some.inj hs
    exact undecorated_append h fun _ => rfl
  | dot11Filter mac type subtype =>
    obtain rfl := Option.some.inj hs
    exact undecorated_append h fun _ => rfl
  | setDecorator filter decorator =>
    simp only [construction] at hs
    split at hs
    · rename_i inherited own hfilter
      obtain ⟨-, hheap⟩ := Option.ite_none_right_eq_some.mp hs
      obtain rfl := Option.some.inj hheap
      intro g hg
      rcases List.mem_or_eq_of_mem_set hg with hg | rfl
      · exact h g hg
      · intro _
        have hinherited : inherited = none := h _ (List.mem_of_getElem? hfilter) nofun
        exact hinherited
    · cases hs

theorem undecorated_of_reachable {heap : Heap} (h : construction.Reachable heap) :
    Undecorated heap := by
  apply h.invariant (I := Undecorated)
  · exact nofun
  · exact fun heap c heap' hi hs => undecorated_step hi hs

def Filter.decorators (f : Filter) : List ℕ :=
  f.decorator.toList ++
    match f.cls with
    | .managementFilter own => own.toList
    | _ => []

def Decorates (heap : Heap) (p q : ℕ) : Prop := ∃ f, heap[p]? = some f ∧ q ∈ f.decorators

def Reaches (heap : Heap) : ℕ → ℕ → Prop := Relation.ReflTransGen (Decorates heap)

def AllAccept (heap : Heap) (p : ℕ) (packet : Packet) : Prop :=
  ∀ q f, Reaches heap p q → heap[q]? = some f → internalFiltering f packet = true

/-- The one filter whose answer is returned: the decorator of a base filter, or the filter
itself. -/
def consulted (heap : Heap) (f : Filter) : Filter := (f.decorator.bind (heap[·]?)).getD f

def Class.Covers : Class → Class → Prop
  | _, .packetFilter => True
  | .packetFilter, _ => False
  | .managementFilter _, .managementFilter _ => True
  | .managementFilter _, .dot11Filter .. => False
  | .dot11Filter _ type _, .managementFilter _ => type = management
  | .dot11Filter _ type subtype, .dot11Filter _ type' subtype' => type = type' ∧ subtype = subtype'

section

variable {heap : Heap} {f g : Filter} {packet : Packet}

theorem accepts_managementFilter {own : Option ℕ} (h : f.cls = .managementFilter own) :
    internalFiltering f packet = true ↔
      ∃ subtype, rfindPdu packet = some (management, subtype) := by
  unfold internalFiltering
  rw [h]
  cases rfindPdu packet with
  | none => simp
  | some frame => simp [Prod.ext_iff]

theorem accepts_dot11Filter {mac : Mac} {type subtype : Fin 4}
    (h : f.cls = .dot11Filter mac type subtype) :
    internalFiltering f packet = true ↔
      rfindPdu packet = some (type, subtype.castLE (by decide)) := by
  unfold internalFiltering
  rw [h]
  cases rfindPdu packet with
  | none => simp
  | some frame => simp [Prod.ext_iff, Fin.ext_iff]

theorem accepts_packetFilter (h : f.cls = .packetFilter) : internalFiltering f packet = true := by
  unfold internalFiltering
  rw [h]

/-- Between the classes one filter implies another only where it tests as much. -/
theorem covers_iff (f g : Filter) :
    f.cls.Covers g.cls ↔
      ∀ packet, internalFiltering f packet = true → internalFiltering g packet = true := by
  cases hg : g.cls with
  | packetFilter =>
    have hcovers : f.cls.Covers .packetFilter := by cases f.cls <;> trivial
    exact iff_of_true hcovers fun packet _ => accepts_packetFilter hg
  | managementFilter own =>
    simp only [accepts_managementFilter hg]
    cases hf : f.cls with
    | packetFilter =>
      refine iff_of_false id fun h => ?_
      obtain ⟨subtype, hfound⟩ := h [] (accepts_packetFilter hf)
      cases hfound
    | managementFilter own' =>
      exact iff_of_true trivial fun packet h => (accepts_managementFilter hf).mp h
    | dot11Filter mac type subtype =>
      simp only [accepts_dot11Filter hf]
      constructor
      · rintro rfl packet hfound
        exact ⟨_, hfound⟩
      · intro h
        obtain ⟨_, hfound⟩ := h [.dot11 type (subtype.castLE (by decide))] rfl
        exact (Prod.ext_iff.mp (Option.some.inj hfound)).1
  | dot11Filter mac type subtype =>
    simp only [accepts_dot11Filter hg]
    cases hf : f.cls with
    | packetFilter =>
      refine iff_of_false id fun h => ?_
      cases h [] (accepts_packetFilter hf)
    | managementFilter own =>
      -- a filter for 802.11 frames asks for one of the four lowest subtypes
      refine iff_of_false id fun h => ?_
      have hfound := h [.dot11 management 15] ((accepts_managementFilter hf).mpr ⟨15, rfl⟩)
      have hsubtype := congrArg Fin.val (Prod.ext_iff.mp (Option.some.inj hfound)).2
      have hlt := subtype.isLt
      simp only [Fin.val_castLE] at hsubtype
      omega
    | dot11Filter mac' type' subtype' =>
      simp only [accepts_dot11Filter hf]
      constructor
      · rintro ⟨rfl, rfl⟩ packet hfound
        exact hfound
      · intro h
        have hfound := h [.dot11 type' (subtype'.castLE (by decide))] rfl
        obtain ⟨htype, hsubtype⟩ := Prod.ext_iff.mp (Option.some.inj hfound)
        exact ⟨htype, Fin.castLE_injective (by decide) hsubtype⟩

theorem filter_eq (h : Undecorated heap) (hf : f ∈ heap) (packet : Packet) :
    filter heap f packet = internalFiltering (consulted heap f) packet := by
  unfold filter consulted
  by_cases hcls : f.cls = .packetFilter
  · rw [accepts_packetFilter hcls, Bool.and_true]
    cases f.decorator.bind (heap[·]?) with
    | none => exact (accepts_packetFilter hcls).symm
    | some decorator => rfl
  · simp [h f hf hcls]

theorem consulted_reached {p : ℕ} (hp : heap[p]? = some f) :
    ∃ q, Reaches heap p q ∧ heap[q]? = some (consulted heap f) := by
  unfold consulted
  cases hd : f.decorator.bind (heap[·]?) with
  | none => exact ⟨p, .refl, hp⟩
  | some decorator =>
    obtain ⟨q, hq, hdecorator⟩ := Option.bind_eq_some_iff.mp hd
    refine ⟨q, .single ⟨f, hp, ?_⟩, hdecorator⟩
    simp [Filter.decorators, hq]

end

/-- Every filter that can be built: its answer is that of the whole chain, for every packet,
if and only if the filter consulted implies each filter of the chain. -/
theorem filter_accepts_iff {heap : Heap} (h : construction.Reachable heap) {p : ℕ} {f : Filter}
    (hp : heap[p]? = some f) :
    (∀ packet, filter heap f packet = true ↔ AllAccept heap p packet) ↔
      ∀ q g, Reaches heap p q → heap[q]? = some g → (consulted heap f).cls.Covers g.cls := by
  have heq := filter_eq (undecorated_of_reachable h) (List.mem_of_getElem? hp)
  obtain ⟨r, hr, hconsulted⟩ := consulted_reached hp
  simp only [heq, covers_iff]
  constructor
  · intro hall q g hq hg packet haccepts
    exact (hall packet).mp haccepts q g hq hg
  · intro hcovers packet
    constructor
    · exact fun haccepts q g hq hg => hcovers q g hq hg packet haccepts
    · exact fun hall => hall r _ hr hconsulted

def managementChain : Heap := [⟨none, .managementFilter none⟩, ⟨some 0, .packetFilter⟩]

theorem reaches_managementChain {q : ℕ} (h : Reaches managementChain 1 q) : q = 1 ∨ q = 0 := by
  induction h with
  | refl => exact .inl rfl
  | tail _ hdecorates ih =>
    obtain ⟨g, hg, hmem⟩ := hdecorates
    rcases ih with rfl | rfl
    · obtain rfl := Option.some.inj hg
      exact .inr (List.mem_singleton.mp hmem)
    · obtain rfl := Option.some.inj hg
      cases hmem

/-- A beacon passes, and every filter of the chain has accepted it. -/
theorem filter_accepts_management_chain :
    filter managementChain ⟨some 0, .packetFilter⟩ [.other, .dot11 0 8] = true ∧
      AllAccept managementChain 1 [.other, .dot11 0 8] := by
  have hreach : construction.Reachable managementChain :=
    Machine.reachable_of_exec [.managementFilter, .packetFilter (some 0)] (by decide)
  have hcovers : ∀ q g, Reaches managementChain 1 q → managementChain[q]? = some g →
      (consulted managementChain ⟨some 0, .packetFilter⟩).cls.Covers g.cls := by
    intro q g hq hg
    rcases reaches_managementChain hq with rfl | rfl
    · obtain rfl := Option.some.inj hg
      trivial
    · obtain rfl := Option.some.inj hg
      trivial
  have haccepts : filter managementChain ⟨some 0, .packetFilter⟩ [.other, .dot11 0 8] = true := by
    decide
  exact ⟨haccepts, ((filter_accepts_iff hreach rfl).mpr hcovers _).mp haccepts⟩

def decoratedManagement : Heap :=
  [⟨none, .dot11Filter #v[2, 0, 0, 0, 0, 2] 0 1⟩, ⟨none, .managementFilter (some 0)⟩]

/-- A probe request passes it, although its decorator rejects the packet. -/
theorem decorator_not_consulted :
    ¬∀ heap p f, construction.Reachable heap → heap[p]? = some f →
      ∀ packet, filter heap f packet = true ↔ AllAccept heap p packet := by
  intro h
  have hreach : construction.Reachable decoratedManagement :=
    Machine.reachable_of_exec [.dot11Filter #v[2, 0, 0, 0, 0, 2] 0 1, .managementFilter,
      .setDecorator 1 (some 0)] (by decide)
  have haccepts := (h decoratedManagement 1 _ hreach rfl [.other, .dot11 0 4]).mp (by decide)
  have hreaches : Reaches decoratedManagement 1 0 := .single ⟨_, rfl, by decide⟩
  exact absurd (haccepts 0 _ hreaches rfl) (by decide)

end AuroraRelay.PacketFilter
