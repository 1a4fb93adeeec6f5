import Mathlib.Data.List.Find
import AuroraRelay.AssociationIds

namespace AuroraRelay.Hostapd
open LinkedList Transition WarpProtocol

section

variable {hapd : HostapdData} {table : Table}

theorem field_update {β : Type} (hapd : HostapdData) (g : StaInfo → β) (p : ℕ) (info : StaInfo) :
    ({ hapd with memory := Function.update hapd.memory p (some info) } : HostapdData).field g =
      Function.update (hapd.field g) p (some (g info)) := by
  funext q
  by_cases hq : q = p
  · subst hq
    simp [HostapdData.field]
  · simp [HostapdData.field, hq]

theorem write_eq {p : ℕ} {info : StaInfo} (hp : hapd.memory p = some info)
    (f : StaInfo → StaInfo) :
    hapd.write p f =
      some { hapd with memory := Function.update hapd.memory p (some (f info)) } := by
  rw [HostapdData.write, hp, Option.map_some]

/-- A field that the write leaves as it is. -/
theorem field_update_of_same {β : Type} {p : ℕ} {info info' : StaInfo} {g : StaInfo → β}
    (hp : hapd.memory p = some info) (hg : g info' = g info) :
    ({ hapd with memory := Function.update hapd.memory p (some info') } : HostapdData).field g =
      hapd.field g := by
  rw [field_update, hg]
  have hself : some (g info) = hapd.field g p := by rw [HostapdData.field, hp, Option.map_some]
  rw [hself, Function.update_eq_self]

theorem exists_info {β : Type} {g : StaInfo → β} {p : ℕ} {x : β} (h : hapd.field g p = some x) :
    ∃ info, hapd.memory p = some info ∧ g info = x :=
  Option.map_eq_some_iff.mp h

theorem Represents.length_lt (h : Represents hapd table) : table.length < hapd.fuel := by
  rw [HostapdData.fuel, h.numSta, Int.toNat_natCast]
  exact Nat.lt_succ_self _

theorem Represents.hasAddr (h : Represents hapd table) {e : Entry} (he : e ∈ table) (addr : Mac) :
    hapd.hasAddr addr e.block = decide (e.addr = addr) := by
  rw [HostapdData.hasAddr, h.addr e he]
  exact decide_eq_decide.mpr Option.some_inj

theorem Represents.get (h : Represents hapd table) (addr : Mac) :
    apGetSta hapd addr = some ((table.find? (·.addr = addr)).map Entry.block) := by
  have hlen : ((table.filter fun e => staHashOf e.addr = staHashOf addr).map
      Entry.block).length < hapd.fuel := by
    rw [List.length_map]
    exact (List.length_filter_le _ _).trans_lt h.length_lt
  rw [apGetSta, (h.buckets (staHashOf addr)).find hlen, List.find?_map, List.find?_filter]
  congr 2
  -- a station with the address is in its bucket
  apply List.find?_congr
  intro e he
  rw [Function.comp_apply, h.hasAddr he]
  by_cases haddr : e.addr = addr
  · simp [haddr]
  · simp [haddr]

/-- The block of an entry is in no other entry. -/
theorem Represents.blocks (h : Represents hapd table) : (table.map Entry.block).Nodup :=
  h.list.nodup

theorem Represents.addr_injective (h : Represents hapd table) {e e' : Entry} (he : e ∈ table)
    (he' : e' ∈ table) (haddr : e.addr = e'.addr) : e = e' :=
  List.inj_on_of_nodup_map h.addrs he he' haddr

theorem Represents.block_injective (h : Represents hapd table) {e e' : Entry} (he : e ∈ table)
    (he' : e' ∈ table) (hblock : e.block = e'.block) : e = e' :=
  List.inj_on_of_nodup_map h.blocks he he' hblock

theorem represents_init (maxNumSta : ℕ) : Represents (stations maxNumSta).init [] where
  list := .nil
  buckets _ := .nil
  addr _ he := absurd he List.not_mem_nil
  aid _ he := absurd he List.not_mem_nil
  owned p hp := by cases hp
  addrs := List.nodup_nil
  numSta := rfl
  room := Nat.zero_le _
  bits k := by simp [aidBit, stations]
  aids := .nil
  aidLe _ he := absurd he List.not_mem_nil

theorem apStaHashAdd_eq {sta : ℕ} {info : StaInfo} (hsta : hapd.memory sta = some info) :
    apStaHashAdd hapd sta = some { hapd with
      memory := Function.update hapd.memory sta
        (some { info with hnext := hapd.staHash (staHashOf info.addr) })
      staHash := Function.update hapd.staHash (staHashOf info.addr) (some sta) } := by
  have haddr : hapd.field StaInfo.addr sta = some info.addr := by
    rw [HostapdData.field, hsta, Option.map_some]
  rw [apStaHashAdd, haddr, Option.bind_some, write_eq hsta, Option.map_some]

def HostapdData.pushed (hapd : HostapdData) (sta : ℕ) (addr : Mac) : HostapdData :=
  { hapd with
    memory := Function.update hapd.memory sta
      (some ⟨hapd.staList, hapd.staHash (staHashOf addr), addr, 0⟩)
    staList := some sta
    staHash := Function.update hapd.staHash (staHashOf addr) (some sta)
    numSta := hapd.numSta + 1 }

theorem field_pushed {β : Type} (hapd : HostapdData) (sta : ℕ) (addr : Mac) (g : StaInfo → β) :
    (hapd.pushed sta addr).field g = Function.update (hapd.field g) sta
      (some (g ⟨hapd.staList, hapd.staHash (staHashOf addr), addr, 0⟩)) :=
  field_update hapd g sta _

theorem Represents.push (h : Represents hapd table) {sta : ℕ} {addr : Mac}
    (hsta : hapd.memory sta = none) (hnew : ∀ e ∈ table, e.addr ≠ addr)
    (hroom : table.length < hapd.maxNumSta) :
    Represents (hapd.pushed sta addr) (⟨sta, addr, 0⟩ :: table) := by
  have hfresh : ∀ e ∈ table, e.block ≠ sta := by
    rintro e he rfl
    obtain ⟨info, hinfo, -⟩ := exists_info (h.addr e he)
    rw [hsta] at hinfo
    cases hinfo
  have hblocks : sta ∉ table.map Entry.block := by
    rintro hmem
    obtain ⟨e, he, hblock⟩ := List.mem_map.mp hmem
    exact hfresh e he hblock
  refine ⟨?_, fun b => ?_, ?_, ?_, fun p hp => ?_, ?_, ?_, ?_, fun k => ?_, ?_, ?_⟩
  · rw [field_pushed]
    exact h.list.push hblocks
  · rw [field_pushed]
    have hmem : sta ∉ (table.filter fun e => staHashOf e.addr = b).map Entry.block := fun hmem =>
      hblocks (List.map_subset _ (List.filter_subset_self table) hmem)
    by_cases hb : staHashOf addr = b
    · subst hb
      rw [List.filter_cons_of_pos (by simp)]
      change Chain _ (Function.update hapd.staHash _ (some sta) _) _
      rw [Function.update_self]
      exact (h.buckets _).push hmem
    · rw [List.filter_cons_of_neg (by simpa using hb)]
      change Chain _ (Function.update hapd.staHash _ (some sta) b) _
      rw [Function.update_of_ne (Ne.symm hb)]
      refine (h.buckets b).congr fun p hp => ?_
      exact Function.update_of_ne (ne_of_mem_of_not_mem hp hmem) ..
  · rw [field_pushed, List.forall_mem_cons, Function.update_self]
    exact ⟨rfl, fun e he => (Function.update_of_ne (hfresh e he) ..).trans (h.addr e he)⟩
  · rw [field_pushed, List.forall_mem_cons, Function.update_self]
    exact ⟨rfl, fun e he => (Function.update_of_ne (hfresh e he) ..).trans (h.aid e he)⟩
  · by_cases hps : p = sta
    · exact ⟨_, List.mem_cons_self, hps.symm⟩
    · change (Function.update hapd.memory sta _ p).isSome at hp
      rw [Function.update_of_ne hps] at hp
      obtain ⟨e, he, hblock⟩ := h.owned p hp
      exact ⟨e, List.mem_cons_of_mem _ he, hblock⟩
  · refine List.nodup_cons.mpr ⟨fun hmem => ?_, h.addrs⟩
    obtain ⟨e, he, haddr⟩ := List.mem_map.mp hmem
    exact hnew e he haddr
  · change hapd.numSta + 1 = _
    rw [h.numSta, List.length_cons]
    rfl
  · exact hroom
  · refine (h.bits k).trans ?_
    simp
  · exact List.pairwise_cons.mpr ⟨fun _ _ h0 => absurd rfl h0, h.aids⟩
  · exact List.forall_mem_cons.mpr ⟨Nat.zero_le _, h.aidLe⟩

/-- `ap_sta_add` as the table has it. -/
theorem Represents.add (h : Represents hapd table) (addr : Mac) {zalloc : Option ℕ}
    (hvalid : ∀ sta ∈ zalloc, hapd.memory sta = none) :
    ∃ hapd', apStaAdd hapd addr zalloc = some (hapd', (table.add hapd.maxNumSta addr zalloc).2) ∧
      Represents hapd' (table.add hapd.maxNumSta addr zalloc).1 ∧
      hapd'.maxNumSta = hapd.maxNumSta := by
  unfold apStaAdd Table.add
  rw [h.get, Option.bind_some]
  cases hfind : table.find? (·.addr = addr) with
  | some e => exact ⟨hapd, rfl, h, rfl⟩
  | none =>
    have hnew : ∀ e ∈ table, e.addr ≠ addr := by simpa using List.find?_eq_none.mp hfind
    have hfull : hapd.numSta ≥ hapd.maxNumSta ↔ table.length ≥ hapd.maxNumSta := by
      rw [h.numSta]
      exact Int.ofNat_le
    simp only [Option.map_none, hfull]
    by_cases hroom : table.length ≥ hapd.maxNumSta
    · rw [if_pos hroom, if_pos hroom]
      exact ⟨hapd, rfl, h, rfl⟩
    · rw [if_neg hroom, if_neg hroom]
      cases zalloc with
      | none => exact ⟨hapd, rfl, h, rfl⟩
      | some sta =>
        refine ⟨hapd.pushed sta addr, ?_, h.push (hvalid sta rfl) hnew (by omega), rfl⟩
        dsimp only
        rw [apStaHashAdd_eq (Function.update_self ..), Option.map_some]
        simp [HostapdData.pushed]

end

structure Kept (hapd hapd' : HostapdData) : Prop where
  addr : hapd'.field StaInfo.addr = hapd.field StaInfo.addr
  aid : hapd'.field StaInfo.aid = hapd.field StaInfo.aid
  numSta : hapd'.numSta = hapd.numSta
  staAid : hapd'.staAid = hapd.staAid
  maxNumSta : hapd'.maxNumSta = hapd.maxNumSta

section

variable {hapd : HostapdData} {sta : ℕ} {before after : List ℕ}

theorem Kept.isSome {hapd' : HostapdData} (h : Kept hapd hapd') (p : ℕ) :
    (hapd'.memory p).isSome = (hapd.memory p).isSome := by
  have haddr := congrArg Option.isSome (congrFun h.addr p)
  simpa [HostapdData.field] using haddr

theorem Kept.fuel {hapd' : HostapdData} (h : Kept hapd hapd') : hapd'.fuel = hapd.fuel := by
  rw [HostapdData.fuel, HostapdData.fuel, h.numSta]

theorem eq_dropLast_append {l : List ℕ} (h : l ≠ []) (rest : List ℕ) :
    l ++ rest = l.dropLast ++ l.getLast h :: rest := by
  conv_lhs => rw [← List.dropLast_append_getLast h]
  simp

theorem listDel_spec (h : Chain (hapd.field StaInfo.next) hapd.staList (before ++ sta :: after))
    (hfuel : (before ++ sta :: after).length < hapd.fuel) :
    ∃ hapd', apStaListDel hapd sta = some hapd' ∧ Kept hapd hapd' ∧
      hapd'.field StaInfo.hnext = hapd.field StaInfo.hnext ∧ hapd'.staHash = hapd.staHash ∧
      Chain (hapd'.field StaInfo.next) hapd'.staList (before ++ after) := by
  obtain ⟨-, behind, hbehind, hafter⟩ := chain_cons_iff.mp h.drop_before
  rw [apStaListDel, hbehind, Option.bind_some]
  by_cases hne : before = []
  · subst hne
    obtain ⟨hhead, -⟩ := chain_cons_iff.mp h
    rw [if_pos hhead]
    exact ⟨_, rfl, ⟨rfl, rfl, rfl, rfl, rfl⟩, rfl, rfl, hafter⟩
  · obtain ⟨a, ha⟩ : ∃ a, a = before.getLast hne := ⟨_, rfl⟩
    have hsplit (rest : List ℕ) : before ++ rest = before.dropLast ++ a :: rest := by
      rw [ha]
      exact eq_dropLast_append hne rest
    have hhead : hapd.staList ≠ some sta := by
      intro hhead
      have hsame := h.unique (hhead ▸ h.drop_before)
      simp [hne] at hsame
    rw [hsplit] at h hfuel
    rw [if_neg hhead, h.find hfuel, h.find?_link, Option.bind_some]
    obtain ⟨info, hinfo, -⟩ := exists_info (Option.eq_some_of_isSome (h.isSome (p := a) (by simp)))
    have hlink := h.unlink
    rw [hbehind, ← hsplit] at hlink
    dsimp only
    rw [write_eq hinfo]
    refine ⟨_, rfl, ⟨field_update_of_same hinfo rfl, field_update_of_same hinfo rfl, rfl, rfl, rfl⟩,
      field_update_of_same hinfo rfl, rfl, ?_⟩
    rw [field_update]
    exact hlink

theorem hashDel_spec {addr : Mac} (haddr : hapd.hasAddr addr sta = true)
    (hother : ∀ p ∈ before, hapd.hasAddr addr p = false)
    (h : Chain (hapd.field StaInfo.hnext) (hapd.staHash (staHashOf addr)) (before ++ sta :: after))
    (hfuel : (before ++ sta :: after).length < hapd.fuel) :
    ∃ hapd', apStaHashDel hapd sta = some hapd' ∧ Kept hapd hapd' ∧
      hapd'.field StaInfo.next = hapd.field StaInfo.next ∧ hapd'.staList = hapd.staList ∧
      Chain (hapd'.field StaInfo.hnext) (hapd'.staHash (staHashOf addr)) (before ++ after) ∧
      (∀ p ∉ before, hapd'.field StaInfo.hnext p = hapd.field StaInfo.hnext p) ∧
      ∀ b, b ≠ staHashOf addr → hapd'.staHash b = hapd.staHash b := by
  obtain ⟨-, behind, hbehind, hafter⟩ := chain_cons_iff.mp h.drop_before
  rw [apStaHashDel, of_decide_eq_true haddr, Option.bind_some]
  cases before with
  | nil =>
    obtain ⟨hhead, -⟩ := chain_cons_iff.mp h
    rw [hhead]
    dsimp only
    rw [if_pos haddr, hbehind, Option.map_some]
    refine ⟨_, rfl, ⟨rfl, rfl, rfl, rfl, rfl⟩, rfl, rfl, ?_, fun _ _ => rfl, fun b hb => ?_⟩
    · change Chain _ (Function.update hapd.staHash _ behind _) _
      rw [Function.update_self]
      exact hafter
    · exact Function.update_of_ne hb ..
  | cons s before =>
    obtain ⟨hhead, -⟩ := chain_cons_iff.mp h
    have hchain := h
    rw [hhead] at hchain
    obtain ⟨hs, hrest⟩ := List.forall_mem_cons.mp hother
    obtain ⟨a, ha⟩ : ∃ a, a = (s :: before).getLast (List.cons_ne_nil _ _) := ⟨_, rfl⟩
    have hsplit (rest : List ℕ) : s :: before ++ rest = (s :: before).dropLast ++ a :: rest := by
      rw [ha]
      exact eq_dropLast_append (List.cons_ne_nil _ _) rest
    have hshort : before.length < hapd.fuel := by
      simp only [List.length_append, List.length_cons] at hfuel
      omega
    have hfound := hchain.findBefore hrest haddr hshort
    rw [← ha] at hfound
    rw [hsplit] at h
    -- the last block in front of the station is linked to it
    obtain ⟨-, q, hq, hqchain⟩ := chain_cons_iff.mp h.drop_before
    obtain ⟨rfl, -⟩ := chain_cons_iff.mp hqchain
    obtain ⟨info, hinfo, -⟩ := exists_info hq
    have hlink := h.unlink
    rw [hbehind, ← hsplit] at hlink
    have hmem : a ∈ s :: before := by
      rw [ha]
      exact List.getLast_mem _
    rw [hhead]
    dsimp only
    rw [if_neg (by simp [hs]), hfound, Option.bind_some, hq, Option.bind_some]
    dsimp only
    rw [hbehind, Option.bind_some, write_eq hinfo]
    refine ⟨_, rfl, ⟨field_update_of_same hinfo rfl, field_update_of_same hinfo rfl, rfl, rfl, rfl⟩,
      field_update_of_same hinfo rfl, rfl, ?_, fun p hp => ?_, fun _ _ => rfl⟩
    · rw [field_update]
      exact hlink
    · rw [field_update]
      exact Function.update_of_ne (ne_of_mem_of_not_mem hmem hp).symm ..

end

section

variable {hapd : HostapdData} {table : Table} {e : Entry}

theorem mem_without {e' : Entry} {sta : ℕ} :
    e' ∈ table.without sta ↔ e' ∈ table ∧ e'.block ≠ sta := by
  simp [Table.without]

theorem Represents.split (h : Represents hapd table) (he : e ∈ table) :
    ∃ before after, table = before ++ e :: after ∧ table.without e.block = before ++ after := by
  obtain ⟨before, after, htable⟩ := List.append_of_mem he
  refine ⟨before, after, htable, ?_⟩
  have hblocks := h.blocks
  rw [htable, List.map_append, List.map_cons, List.nodup_append_comm, List.cons_append,
    List.nodup_cons, List.mem_append, not_or] at hblocks
  have hkeep : ∀ l : Table, e.block ∉ l.map Entry.block → l.without e.block = l := by
    refine fun l hl => List.filter_eq_self.mpr fun a ha => decide_eq_true fun hblock => hl ?_
    exact List.mem_map.mpr ⟨a, ha, hblock⟩
  rw [htable, Table.without, List.filter_append, List.filter_cons_of_neg (by simp)]
  exact congrArg₂ (· ++ ·) (hkeep _ hblocks.1.2) (hkeep _ hblocks.1.1)

theorem Represents.unlist (h : Represents hapd table) (he : e ∈ table) {hapd₁ : HostapdData}
    (hkept : Kept hapd hapd₁) (hnext : hapd₁.field StaInfo.next = hapd.field StaInfo.next)
    (hlist : hapd₁.staList = hapd.staList) :
    ∃ hapd₂, apStaListDel hapd₁ e.block = some hapd₂ ∧ Kept hapd₁ hapd₂ ∧
      hapd₂.field StaInfo.hnext = hapd₁.field StaInfo.hnext ∧ hapd₂.staHash = hapd₁.staHash ∧
      Chain (hapd₂.field StaInfo.next) hapd₂.staList ((table.without e.block).map Entry.block) := by
  obtain ⟨before, after, htable, hwithout⟩ := h.split he
  have hchain := h.list
  have hlen := h.length_lt
  rw [htable, List.map_append, List.map_cons, ← hlist, ← hnext] at hchain
  rw [hwithout, List.map_append]
  refine listDel_spec hchain ?_
  rw [hkept.fuel]
  simpa [htable] using hlen

theorem Represents.unhash (h : Represents hapd table) (he : e ∈ table) :
    ∃ hapd₁, apStaHashDel hapd e.block = some hapd₁ ∧ Kept hapd hapd₁ ∧
      hapd₁.field StaInfo.next = hapd.field StaInfo.next ∧ hapd₁.staList = hapd.staList ∧
      ∀ b, Chain (hapd₁.field StaInfo.hnext) (hapd₁.staHash b)
        (((table.without e.block).filter fun a => staHashOf a.addr = b).map Entry.block) := by
  obtain ⟨before, after, htable, hwithout⟩ := h.split he
  have hin : ∀ a ∈ before ++ after, a ∈ table ∧ a.block ≠ e.block := by
    intro a ha
    rwa [← hwithout, mem_without] at ha
  let own (l : Table) : List ℕ :=
    (l.filter fun a => staHashOf a.addr = staHashOf e.addr).map Entry.block
  have hown := h.buckets (staHashOf e.addr)
  rw [htable, List.filter_append, List.filter_cons_of_pos (by simp), List.map_append,
    List.map_cons] at hown
  have hother : ∀ p ∈ own before, hapd.hasAddr e.addr p = false := by
    intro p hp
    obtain ⟨a, ha, rfl⟩ := List.mem_map.mp hp
    obtain ⟨hmem, hne⟩ := hin a (List.mem_append_left _ (List.mem_filter.mp ha).1)
    rw [h.hasAddr hmem]
    exact decide_eq_false fun haddr => hne (congrArg Entry.block (h.addr_injective hmem he haddr))
  have hfuel : (own before ++ e.block :: own after).length < hapd.fuel := by
    have hlen := h.length_lt
    have h1 := List.length_filter_le (fun a : Entry => staHashOf a.addr = staHashOf e.addr) before
    have h2 := List.length_filter_le (fun a : Entry => staHashOf a.addr = staHashOf e.addr) after
    rw [htable] at hlen
    simp only [own, List.length_append, List.length_cons, List.length_map] at hlen ⊢
    omega
  obtain ⟨hapd₁, hdel, hkept, hnext, hlist, hchain, hhnext, hhash⟩ :=
    hashDel_spec (by rw [h.hasAddr he]; simp) hother hown hfuel
  refine ⟨hapd₁, hdel, hkept, hnext, hlist, fun b => ?_⟩
  rw [hwithout, List.filter_append, List.map_append]
  by_cases hb : b = staHashOf e.addr
  · subst hb
    exact hchain
  · have hsame := h.buckets b
    rw [htable, List.filter_append, List.filter_cons_of_neg (by simpa using Ne.symm hb),
      List.map_append] at hsame
    rw [hhash b hb]
    refine hsame.congr fun p hp => hhnext p fun hmem => hb ?_
    -- a block is in one bucket only
    rw [← List.map_append, ← List.filter_append] at hp
    obtain ⟨a, ha, rfl⟩ := List.mem_map.mp hp
    obtain ⟨a', ha', hblock⟩ := List.mem_map.mp hmem
    obtain ⟨ha, hab⟩ := List.mem_filter.mp ha
    obtain ⟨ha', hab'⟩ := List.mem_filter.mp ha'
    obtain rfl := h.block_injective (hin a' (List.mem_append_left _ ha')).1 (hin a ha).1 hblock
    exact (of_decide_eq_true hab).symm.trans (of_decide_eq_true hab')

theorem Represents.aid_injective (h : Represents hapd table) {e' : Entry} (he : e ∈ table)
    (he' : e' ∈ table) (h0 : e.aid ≠ 0) (haid : e.aid = e'.aid) : e = e' := by
  have hsymm : Std.Symm fun e e' : Entry => e.aid ≠ 0 → e.aid ≠ e'.aid :=
    ⟨fun a b hab hb hba => hab (hba ▸ hb) hba.symm⟩
  by_contra hne
  exact h.aids.forall he he' hne h0 haid

theorem Represents.bits_without (h : Represents hapd table) (he : e ∈ table) (k : ℕ) :
    aidBit (if e.aid > 0 then
        Function.update hapd.staAid ((e.aid - 1) / 32)
          (hapd.staAid ((e.aid - 1) / 32) &&& ~~~bit ((e.aid - 1) % 32))
      else hapd.staAid) k = true ↔ ∃ a ∈ table.without e.block, a.aid = k + 1 := by
  have hcleared : aidBit (if e.aid > 0 then
        Function.update hapd.staAid ((e.aid - 1) / 32)
          (hapd.staAid ((e.aid - 1) / 32) &&& ~~~bit ((e.aid - 1) % 32))
      else hapd.staAid) k = true ↔ aidBit hapd.staAid k = true ∧ e.aid ≠ k + 1 := by
    split_ifs with h0
    · rw [aidBit_clear, Bool.and_eq_true, decide_eq_true_eq]
      exact and_congr_right fun _ => by omega
    · exact (and_iff_left (by omega)).symm
  rw [hcleared, h.bits]
  constructor
  · rintro ⟨⟨a, ha, haid⟩, hne⟩
    refine ⟨a, mem_without.mpr ⟨ha, fun hblock => hne ?_⟩, haid⟩
    rw [← h.block_injective ha he hblock, haid]
  · rintro ⟨a, ha, haid⟩
    obtain ⟨ha, hne⟩ := mem_without.mp ha
    refine ⟨⟨a, ha, haid⟩, fun h0 => hne ?_⟩
    rw [h.aid_injective ha he (by omega) (haid.trans h0.symm)]

theorem Represents.free (h : Represents hapd table) {sta : ℕ} (hsta : (hapd.memory sta).isSome) :
    ∃ hapd', apFreeSta hapd sta = some hapd' ∧ Represents hapd' (table.without sta) ∧
      hapd'.maxNumSta = hapd.maxNumSta := by
  obtain ⟨e, he, rfl⟩ := h.owned sta hsta
  obtain ⟨hapd₁, hdel₁, hkept₁, hnext₁, hlist₁, hbuckets⟩ := h.unhash he
  obtain ⟨hapd₂, hdel₂, hkept₂, hhnext₂, hhash₂, hlist⟩ := h.unlist he hkept₁ hnext₁ hlist₁
  rw [apFreeSta, h.aid e he, Option.bind_some, hdel₁, Option.bind_some, hdel₂, Option.map_some]
  refine ⟨_, rfl, ?_, hkept₂.maxNumSta.trans hkept₁.maxNumSta⟩
  have hin : ∀ a ∈ table.without e.block, a ∈ table ∧ a.block ≠ e.block := fun a ha =>
    mem_without.mp ha
  have hblockNe : ∀ l : Table, l ⊆ table.without e.block → ∀ p ∈ l.map Entry.block,
      p ≠ e.block := by
    intro l hl p hp
    obtain ⟨a, ha, rfl⟩ := List.mem_map.mp hp
    exact (hin a (hl ha)).2
  -- giving the block back changes none of the others
  have hfield {β : Type} (g : StaInfo → β) (p : ℕ) (hp : p ≠ e.block) :
      (Function.update hapd₂.memory e.block none p).map g = hapd₂.field g p := by
    rw [Function.update_of_ne hp, HostapdData.field]
  have hlen : table.length = (table.without e.block).length + 1 := by
    obtain ⟨before, after, htable, hwithout⟩ := h.split he
    rw [hwithout, htable]
    simp only [List.length_append, List.length_cons]
    omega
  exact {
    list := hlist.congr fun p hp => hfield _ p (hblockNe _ (List.Subset.refl _) p hp)
    buckets := fun b => by
      have hchain := hbuckets b
      rw [← hhnext₂, ← hhash₂] at hchain
      exact hchain.congr fun p hp => hfield _ p (hblockNe _ (List.filter_subset_self _) p hp)
    addr := fun a ha => by
      refine (hfield _ _ (hin a ha).2).trans ?_
      rw [hkept₂.addr, hkept₁.addr]
      exact h.addr a (hin a ha).1
    aid := fun a ha => by
      refine (hfield _ _ (hin a ha).2).trans ?_
      rw [hkept₂.aid, hkept₁.aid]
      exact h.aid a (hin a ha).1
    owned := fun p hp => by
      have hne : p ≠ e.block := by
        rintro rfl
        simp at hp
      change (Function.update hapd₂.memory e.block none p).isSome at hp
      rw [Function.update_of_ne hne, hkept₂.isSome, hkept₁.isSome] at hp
      obtain ⟨a, ha, rfl⟩ := h.owned p hp
      exact ⟨a, mem_without.mpr ⟨ha, hne⟩, rfl⟩
    addrs := h.addrs.sublist (List.filter_sublist.map _)
    numSta := by
      have hnum := h.numSta
      change hapd₂.numSta - 1 = _
      rw [hkept₂.numSta, hkept₁.numSta]
      omega
    room := by
      have hroom := h.room
      change _ ≤ hapd₂.maxNumSta
      rw [hkept₂.maxNumSta, hkept₁.maxNumSta]
      omega
    bits := fun k => by
      rw [← h.bits_without he, ← hkept₁.staAid, ← hkept₂.staAid]
    aids := h.aids.sublist List.filter_sublist
    aidLe := fun a ha => h.aidLe a (hin a ha).1 }

end

section

variable {hapd : HostapdData} {table : Table} {sta aid : ℕ}

theorem map_block_setAid (l : Table) (sta aid : ℕ) :
    (l.setAid sta aid).map Entry.block = l.map Entry.block := by
  rw [Table.setAid, List.map_map]
  apply List.map_congr_left
  intro e _
  simp only [Function.comp_apply]
  split_ifs <;> rfl

theorem map_addr_setAid (l : Table) (sta aid : ℕ) :
    (l.setAid sta aid).map Entry.addr = l.map Entry.addr := by
  rw [Table.setAid, List.map_map]
  apply List.map_congr_left
  intro e _
  simp only [Function.comp_apply]
  split_ifs <;> rfl

theorem filter_setAid (l : Table) (sta aid : ℕ) (b : UInt8) :
    (l.setAid sta aid).filter (fun e => staHashOf e.addr = b) =
      Table.setAid (l.filter fun e => staHashOf e.addr = b) sta aid := by
  rw [Table.setAid, List.filter_map, Table.setAid]
  congr 1
  apply List.filter_congr
  intro e _
  simp only [Function.comp_apply]
  split_ifs <;> rfl

theorem mem_setAid {l : Table} {a : Entry} (h : a ∈ l.setAid sta aid) :
    ∃ e ∈ l, e.block = a.block ∧ e.addr = a.addr ∧
      (e.block = sta ∧ a.aid = aid ∨ e.block ≠ sta ∧ a.aid = e.aid) := by
  obtain ⟨e, he, rfl⟩ := List.mem_map.mp h
  by_cases hblock : e.block = sta
  · exact ⟨e, he, by simp [hblock], by simp [hblock], .inl ⟨hblock, by simp [hblock]⟩⟩
  · exact ⟨e, he, by simp [hblock], by simp [hblock], .inr ⟨hblock, by simp [hblock]⟩⟩

def HostapdData.identified (hapd : HostapdData) (sta : ℕ) (info : StaInfo) (i j : ℕ) :
    HostapdData :=
  { hapd with
    memory := Function.update hapd.memory sta (some { info with aid := i * 32 + j + 1 })
    staAid := Function.update hapd.staAid i (hapd.staAid i ||| bit j) }

theorem Represents.setAid (h : Represents hapd table) {info : StaInfo}
    (hsta : hapd.memory sta = some info) (h0 : info.aid = 0) {i j : ℕ} (hj : j < 32)
    (hfree : ∀ e ∈ table, e.aid ≠ i * 32 + j + 1) (hle : i * 32 + j + 1 ≤ 2007) :
    Represents (hapd.identified sta info i j) (table.setAid sta (i * 32 + j + 1)) := by
  obtain ⟨e, he, rfl⟩ := h.owned sta (by rw [hsta]; rfl)
  have hnone : e.aid = 0 := by
    have haid := h.aid e he
    rw [HostapdData.field, hsta, Option.map_some, h0] at haid
    exact (Option.some.inj haid).symm
  have hsame {β : Type} (g : StaInfo → β) (hg : g { info with aid := i * 32 + j + 1 } = g info) :
      (hapd.identified e.block info i j).field g = hapd.field g :=
    field_update_of_same hsta hg
  have haids : (hapd.identified e.block info i j).field StaInfo.aid =
      Function.update (hapd.field StaInfo.aid) e.block (some (i * 32 + j + 1)) :=
    field_update hapd StaInfo.aid e.block _
  refine ⟨?_, fun b => ?_, fun a ha => ?_, fun a ha => ?_, fun p hp => ?_, ?_, ?_, ?_,
    fun k => ?_, ?_, fun a ha => ?_⟩
  · rw [map_block_setAid, hsame _ rfl]
    exact h.list
  · rw [filter_setAid, map_block_setAid, hsame _ rfl]
    exact h.buckets b
  · obtain ⟨a', ha', hblock, haddr, -⟩ := mem_setAid ha
    rw [hsame _ rfl, ← hblock, ← haddr]
    exact h.addr a' ha'
  · obtain ⟨a', ha', hblock, -, ⟨hown, haid⟩ | ⟨hown, haid⟩⟩ := mem_setAid ha
    · rw [haids, ← hblock, hown, Function.update_self, haid]
    · rw [haids, ← hblock, Function.update_of_ne hown, haid]
      exact h.aid a' ha'
  · have hp' : (hapd.memory p).isSome := by
      by_cases hpe : p = e.block
      · rw [hpe, hsta]
        rfl
      · change (Function.update hapd.memory e.block _ p).isSome at hp
        rwa [Function.update_of_ne hpe] at hp
    obtain ⟨a, ha, rfl⟩ := h.owned p hp'
    have hmem := List.mem_map_of_mem (f := Entry.block) ha
    rw [← map_block_setAid table e.block (i * 32 + j + 1)] at hmem
    exact List.mem_map.mp hmem
  · rw [map_addr_setAid]
    exact h.addrs
  · rw [Table.setAid, List.length_map]
    exact h.numSta
  · rw [Table.setAid, List.length_map]
    exact h.room
  · rw [HostapdData.identified, aidBit_set _ hj, Bool.or_eq_true, h.bits, decide_eq_true_eq]
    constructor
    · rintro (⟨a, ha, haid⟩ | rfl)
      · have hne : a.block ≠ e.block := by
          intro hblock
          rw [h.block_injective ha he hblock] at haid
          omega
        exact ⟨a, List.mem_map.mpr ⟨a, ha, if_neg hne⟩, haid⟩
      · exact ⟨{ e with aid := i * 32 + j + 1 }, List.mem_map.mpr ⟨e, he, if_pos rfl⟩, rfl⟩
    · rintro ⟨a, ha, haid⟩
      obtain ⟨a', ha', -, -, ⟨-, hnew⟩ | ⟨-, hold⟩⟩ := mem_setAid ha
      · exact .inr (by omega)
      · exact .inl ⟨a', ha', hold ▸ haid⟩
  · rw [Table.setAid, List.pairwise_map]
    refine (h.aids.and (List.pairwise_map.mp h.blocks)).imp_of_mem ?_
    rintro a b ha hb ⟨hab, hblock⟩
    by_cases ha' : a.block = e.block
    · rw [if_pos ha', if_neg fun hb' => hblock (ha'.trans hb'.symm)]
      exact fun _ haid => hfree b hb haid.symm
    · rw [if_neg ha']
      by_cases hb' : b.block = e.block
      · rw [if_pos hb']
        exact fun _ haid => hfree a ha haid
      · rw [if_neg hb']
        exact hab
  · obtain ⟨a', ha', -, -, ⟨-, haid⟩ | ⟨-, haid⟩⟩ := mem_setAid ha
    · rw [haid]
      exact hle
    · rw [haid]
      exact h.aidLe a' ha'

/-- `hostapd_get_aid` as the table has it. -/
theorem Represents.getAid (h : Represents hapd table) (hsta : (hapd.memory sta).isSome) :
    ∃ hapd' code, hostapdGetAid hapd sta = some (hapd', code) ∧
      Represents hapd' (table.perform hapd.maxNumSta (.getAid sta)).1 ∧
      (table.perform hapd.maxNumSta (.getAid sta)).2 = .status code ∧
      hapd'.maxNumSta = hapd.maxNumSta := by
  obtain ⟨e, he, rfl⟩ := h.owned sta hsta
  obtain ⟨info, hinfo, haid⟩ := exists_info (h.aid e he)
  have hiff : (∃ a ∈ table, a.block = e.block ∧ a.aid > 0) ↔ e.aid > 0 := by
    constructor
    · rintro ⟨a, ha, hblock, hpos⟩
      rwa [h.block_injective ha he hblock] at hpos
    · exact fun hpos => ⟨e, he, rfl, hpos⟩
  rw [hostapdGetAid, h.aid e he, Option.bind_some, Table.perform]
  simp only [hiff]
  by_cases hpos : e.aid > 0
  · rw [if_pos hpos, if_pos hpos]
    exact ⟨hapd, 0, rfl, h, rfl, rfl⟩
  · have hspec := wordLoop_spec hapd.staAid aidWords 0
    rw [if_neg hpos, if_neg hpos, freeAid_eq h.bits]
    cases hl : wordLoop hapd.staAid aidWords 0 with
    | none => exact ⟨hapd, -1, rfl, h, rfl, rfl⟩
    | some r =>
      obtain ⟨i, j⟩ := r
      rw [hl] at hspec
      obtain ⟨-, hj, hclear, -⟩ := hspec
      dsimp only
      by_cases hbig : i * 32 + j + 1 > 2007
      · rw [if_pos hbig, if_pos hbig]
        exact ⟨hapd, -1, rfl, h, rfl, rfl⟩
      · rw [if_neg hbig, if_neg hbig, write_eq hinfo, Option.map_some]
        refine ⟨hapd.identified e.block info i j, 0, rfl, ?_, rfl, rfl⟩
        refine h.setAid hinfo (by omega) hj (fun a ha haid' => ?_) (by omega)
        rw [(h.bits _).mpr ⟨a, ha, haid'⟩] at hclear
        cases hclear

end

def performAll (hapd : HostapdData) : List Call → Option (HostapdData × List Returned)
  | [] => some (hapd, [])
  | call :: calls => (perform hapd call).bind fun (hapd, r) =>
    (performAll hapd calls).map fun (hapd, rs) => (hapd, r :: rs)

def Table.performAll (maxNumSta : ℕ) (table : Table) : List Call → Table × List Returned
  | [] => (table, [])
  | call :: calls =>
    let (table, r) := table.perform maxNumSta call
    let (table, rs) := Table.performAll maxNumSta table calls
    (table, r :: rs)

theorem perform_refines {hapd : HostapdData} {table : Table} (h : Represents hapd table)
    {call : Call} (hvalid : call.Valid hapd) :
    ∃ hapd', perform hapd call = some (hapd', (table.perform hapd.maxNumSta call).2) ∧
      Represents hapd' (table.perform hapd.maxNumSta call).1 ∧
      hapd'.maxNumSta = hapd.maxNumSta := by
  cases call with
  | staAdd addr zalloc =>
    obtain ⟨hapd', hadd, hrep, hmax⟩ := h.add addr hvalid
    refine ⟨hapd', ?_, hrep, hmax⟩
    rw [perform, hadd, Option.map_some]
    rfl
  | getAid sta =>
    obtain ⟨hapd', code, haid, hrep, hcode, hmax⟩ := h.getAid hvalid
    refine ⟨hapd', ?_, hrep, hmax⟩
    rw [perform, haid, Option.map_some, hcode]
  | freeSta sta =>
    obtain ⟨hapd', hfree, hrep, hmax⟩ := h.free hvalid
    refine ⟨hapd', ?_, hrep, hmax⟩
    rw [perform, hfree, Option.map_some]
    rfl

theorem performAll_refines {maxNumSta : ℕ} {hapd : HostapdData} {table : Table}
    (h : Represents hapd table) (hmax : hapd.maxNumSta = maxNumSta) (calls : List Call)
    (hvalid : (stations maxNumSta).Meets Call.Valid hapd calls) :
    ∃ hapd', performAll hapd calls = some (hapd', (Table.performAll maxNumSta table calls).2) ∧
      Represents hapd' (Table.performAll maxNumSta table calls).1 := by
  induction calls generalizing hapd table with
  | nil => exact ⟨hapd, rfl, h⟩
  | cons call calls ih =>
    obtain ⟨hcall, hrest⟩ := hvalid
    obtain ⟨hapd₁, hperform, hrep, hmax₁⟩ := perform_refines h hcall
    have hstep : (stations maxNumSta).step hapd call = some hapd₁ := by
      change (perform hapd call).map Prod.fst = some hapd₁
      rw [hperform, Option.map_some]
    rw [hstep] at hrest
    rw [hmax] at hperform hrep
    obtain ⟨hapd₂, hall, hrep₂⟩ := ih hrep (hmax₁.trans hmax) hrest
    refine ⟨hapd₂, ?_, hrep₂⟩
    rw [performAll, hperform, Option.bind_some]
    dsimp only
    rw [hall, Option.map_some]
    rfl

/-- However stations come and go, the linked blocks are the table of the stations: every call
returns what it returns on the table, reads and writes allocated blocks only, and loses none;
and a station is found by its address exactly when it is in the table. -/
theorem stations_refine_table (maxNumSta : ℕ) (calls : List Call)
    (hvalid : (stations maxNumSta).Meets Call.Valid
      (stations maxNumSta).init calls) :
    ∃ hapd, performAll (stations maxNumSta).init calls =
        some (hapd, (Table.performAll maxNumSta [] calls).2) ∧
      Represents hapd (Table.performAll maxNumSta [] calls).1 ∧
      ∀ addr, apGetSta hapd addr =
        some (((Table.performAll maxNumSta [] calls).1.find? (·.addr = addr)).map Entry.block) := by
  obtain ⟨hapd, hall, hrep⟩ := performAll_refines (represents_init maxNumSta) rfl calls hvalid
  exact ⟨hapd, hall, hrep, hrep.get⟩

def twoStations : List Call :=
  [.staAdd #v[2, 0, 0, 0, 0, 9] (some 100), .staAdd #v[2, 0, 0, 0, 1, 9] (some 200),
    .getAid 100, .getAid 200, .freeSta 100]

theorem valid_twoStations : (stations 2007).Meets Call.Valid
    (stations 2007).init twoStations := by
  refine ⟨?_, ?_, rfl, rfl, rfl, trivial⟩
  · rintro _ ⟨⟩
    rfl
  · rintro _ ⟨⟩
    rfl

theorem stations_refine_table_two : ∃ hapd,
    performAll (stations 2007).init twoStations =
      some (hapd, [.station (some 100), .station (some 200), .status 0, .status 0, .nothing]) ∧
    apGetSta hapd #v[2, 0, 0, 0, 0, 9] = some none ∧
    apGetSta hapd #v[2, 0, 0, 0, 1, 9] = some (some 200) := by
  obtain ⟨hapd, hall, -, hget⟩ := stations_refine_table 2007 twoStations valid_twoStations
  exact ⟨hapd, hall, hget _, hget _⟩

theorem represents_of_reachable {maxNumSta : ℕ} {hapd : HostapdData}
    (h : (stations maxNumSta).ReachableIf Call.Valid hapd) :
    ∃ table, Represents hapd table ∧ hapd.maxNumSta = maxNumSta := by
  apply h.invariant (I := fun hapd => ∃ table, Represents hapd table ∧ hapd.maxNumSta = maxNumSta)
  · exact ⟨[], represents_init maxNumSta, rfl⟩
  · rintro hapd call hapd' ⟨table, hrep, hmax⟩ hcall hstep
    obtain ⟨hapd₁, hperform, hrep₁, hmax₁⟩ := perform_refines hrep hcall
    change (perform hapd call).map Prod.fst = some hapd' at hstep
    rw [hperform, Option.map_some] at hstep
    obtain rfl := Option.some.inj hstep
    exact ⟨_, hrep₁, hmax₁.trans hmax⟩

/-- With a station that has no identifier there are at most 2006 in use. -/
theorem freeAid_isSome {table : Table} (hlen : table.length ≤ 2007) {e : Entry} (he : e ∈ table)
    (h0 : e.aid = 0) : table.freeAid.isSome := by
  by_contra hnone
  rw [Option.not_isSome_iff_eq_none] at hnone
  have hsubset : List.range' 0 2008 ⊆ table.map Entry.aid := by
    intro aid haid
    by_cases hpos : aid = 0
    · exact List.mem_map.mpr ⟨e, he, h0.trans hpos.symm⟩
    · have hbound := (List.mem_range'_1.mp haid).2
      have hmem := List.find?_eq_none.mp hnone aid (List.mem_range'_1.mpr ⟨by omega, by omega⟩)
      simpa using hmem
  have hle := (List.nodup_range' (s := 0) (n := 2008)).length_le_of_subset hsubset
  simp only [List.length_range', List.length_map] at hle
  omega

/-- As many stations as the configuration allows: none that associates is refused for want of
an identifier, and it gets one that no other station has. -/
theorem association_identifier_found {maxNumSta : ℕ} (hmax : maxNumSta ≤ 2007)
    {hapd : HostapdData}
    (h : (stations maxNumSta).ReachableIf Call.Valid hapd)
    (sta : ℕ) (hsta : (hapd.memory sta).isSome) :
    ∃ hapd' aid, hostapdGetAid hapd sta = some (hapd', 0) ∧
      hapd'.field StaInfo.aid sta = some aid ∧ 1 ≤ aid ∧ aid ≤ 2007 ∧
      ∀ other, other ≠ sta → hapd'.field StaInfo.aid other ≠ some aid := by
  obtain ⟨table, hrep, hsame⟩ := represents_of_reachable h
  obtain ⟨hapd', code, hget, hrep', hcode, -⟩ := hrep.getAid hsta
  have hroom := hrep.room
  rw [hsame] at hroom
  obtain ⟨e, he, rfl⟩ := hrep.owned sta hsta
  -- the station has an identifier afterwards
  obtain ⟨a, ha, hblock, hpos, hzero⟩ :
      ∃ a ∈ (table.perform hapd.maxNumSta (.getAid e.block)).1, a.block = e.block ∧ 0 < a.aid ∧
        (table.perform hapd.maxNumSta (.getAid e.block)).2 = .status 0 := by
    rw [Table.perform]
    split_ifs with hold
    · obtain ⟨a, ha, hblock, hpos⟩ := hold
      exact ⟨a, ha, hblock, hpos, rfl⟩
    · have h0 : e.aid = 0 := by
        by_contra h0
        exact hold ⟨e, he, rfl, Nat.pos_of_ne_zero h0⟩
      obtain ⟨aid, haid⟩ := Option.isSome_iff_exists.mp (freeAid_isSome (by omega) he h0)
      rw [haid]
      refine ⟨{ e with aid := aid }, List.mem_map.mpr ⟨e, he, if_pos rfl⟩, rfl, ?_, rfl⟩
      exact (List.mem_range'_1.mp (List.mem_of_find?_eq_some haid)).1
  obtain rfl : code = 0 := by
    rw [hzero] at hcode
    exact (Returned.status.inj hcode).symm
  refine ⟨hapd', a.aid, hget, hblock ▸ hrep'.aid a ha, hpos, hrep'.aidLe a ha, ?_⟩
  rintro other hne hother
  obtain ⟨info, hinfo, -⟩ := exists_info hother
  obtain ⟨b, hb, rfl⟩ := hrep'.owned other (by rw [hinfo]; rfl)
  rw [hrep'.aid b hb] at hother
  have haid : a.aid = b.aid := (Option.some.inj hother).symm
  exact hne ((congrArg Entry.block (hrep'.aid_injective ha hb hpos.ne' haid)).symm.trans hblock)

/-- The first station has the identifier 1 when the second one asks. -/
theorem association_identifier_found_second : ∃ hapd hapd' aid,
    (stations 2007).ReachableIf Call.Valid hapd ∧ hapd.field StaInfo.aid 100 = some 1 ∧
      hostapdGetAid hapd 200 = some (hapd', 0) ∧ hapd'.field StaInfo.aid 200 = some aid ∧
      hapd'.field StaInfo.aid 100 = some 1 ∧ aid ≠ 1 := by
  have hreach := Machine.ReachableIf.exec (M := stations 2007) .init (twoStations.take 3)
    (C := Call.Valid) ⟨valid_twoStations.1, valid_twoStations.2.1, rfl, trivial⟩ rfl
  obtain ⟨hapd', aid, hget, haid, -, -, hother⟩ :=
    association_identifier_found le_rfl hreach 200 rfl
  obtain rfl := (Prod.mk.inj (Option.some.inj hget)).1
  refine ⟨_, _, aid, hreach, rfl, hget, haid, rfl, ?_⟩
  rintro rfl
  exact hother 100 (by decide) rfl

end AuroraRelay.Hostapd
