import Mathlib.Data.List.Nodup
import Mathlib.Logic.Function.Basic

/-!
# Singly linked lists

Nodes are addresses, and `next` reads the link of a node: the node behind it, or nothing at
the end of the list.  It fails at an address where there is no node.  A walk along the links
is given fuel, because on a cycle nothing ends it.
-/

namespace LinkedList

/-- The nodes from `head` on are those of the list, and the last link is empty. -/
inductive Chain (next : ℕ → Option (Option ℕ)) : Option ℕ → List ℕ → Prop
  | nil : Chain next none []
  | cons {p : ℕ} {q : Option ℕ} {nodes : List ℕ} (hp : next p = some q) (h : Chain next q nodes) :
      Chain next (some p) (p :: nodes)

/-- `while (p && !stop(p)) p = p->next`. -/
def find (next : ℕ → Option (Option ℕ)) (stop : ℕ → Bool) : ℕ → Option ℕ → Option (Option ℕ)
  | 0, _ => none
  | _ + 1, none => some none
  | fuel + 1, some p => if stop p then some (some p) else (next p).bind (find next stop fuel)

/-- `while (p->next && !stop(p->next)) p = p->next`. -/
def findBefore (next : ℕ → Option (Option ℕ)) (stop : ℕ → Bool) : ℕ → ℕ → Option ℕ
  | 0, _ => none
  | fuel + 1, p => (next p).bind fun
    | none => some p
    | some q => if stop q then some p else findBefore next stop fuel q

variable {next next' : ℕ → Option (Option ℕ)} {head : Option ℕ} {p : ℕ}
  {nodes before after : List ℕ}

theorem chain_nil_iff : Chain next head [] ↔ head = none := by
  constructor
  · rintro ⟨⟩
    rfl
  · rintro rfl
    exact .nil

theorem chain_cons_iff :
    Chain next head (p :: nodes) ↔ head = some p ∧ ∃ q, next p = some q ∧ Chain next q nodes := by
  constructor
  · rintro (_ | ⟨hp, h⟩)
    exact ⟨rfl, _, hp, h⟩
  · rintro ⟨rfl, q, hp, h⟩
    exact .cons hp h

theorem Chain.unique {l l' : List ℕ} (h : Chain next head l) (h' : Chain next head l') :
    l = l' := by
  induction h generalizing l' with
  | nil =>
    cases h'
    rfl
  | cons hp _ ih =>
    cases h' with
    | cons hp' h' =>
      obtain rfl := Option.some.inj (hp.symm.trans hp')
      rw [ih h']

/-- The links are followed within the list only. -/
theorem Chain.congr (h : Chain next head nodes) (hsame : ∀ p ∈ nodes, next' p = next p) :
    Chain next' head nodes := by
  induction h with
  | nil => exact .nil
  | cons hp _ ih =>
    obtain ⟨hfirst, hrest⟩ := List.forall_mem_cons.mp hsame
    exact .cons (hfirst.trans hp) (ih hrest)

theorem Chain.drop_before (h : Chain next head (before ++ p :: after)) :
    Chain next (some p) (p :: after) := by
  induction before generalizing head with
  | nil =>
    obtain ⟨rfl, -⟩ := chain_cons_iff.mp h
    exact h
  | cons a before ih =>
    obtain ⟨-, q, -, hq⟩ := chain_cons_iff.mp h
    exact ih hq

/-- A list that ends does not come back to one of its nodes. -/
theorem Chain.nodup (h : Chain next head nodes) : nodes.Nodup := by
  induction h with
  | nil => exact List.nodup_nil
  | @cons p q nodes hp h ih =>
    refine List.nodup_cons.mpr ⟨fun hmem => ?_, ih⟩
    obtain ⟨before, after, rfl⟩ := List.append_of_mem hmem
    have hlen := congrArg List.length ((Chain.cons hp h).unique h.drop_before)
    simp only [List.length_cons, List.length_append] at hlen
    omega

theorem Chain.isSome (h : Chain next head nodes) (hp : p ∈ nodes) : (next p).isSome := by
  obtain ⟨before, after, rfl⟩ := List.append_of_mem hp
  obtain ⟨-, q, hq, -⟩ := chain_cons_iff.mp h.drop_before
  rw [hq]
  rfl

/-- A new node in front of a list. -/
theorem Chain.push (h : Chain next head nodes) (hp : p ∉ nodes) :
    Chain (Function.update next p (some head)) (some p) (p :: nodes) := by
  refine .cons (Function.update_self ..) (h.congr fun q hq => ?_)
  exact Function.update_of_ne (ne_of_mem_of_not_mem hq hp) ..

/-- The node behind `a` is taken out of the list. -/
theorem Chain.unlink {a : ℕ} (h : Chain next head (before ++ a :: p :: after)) :
    Chain (Function.update next a (next p)) head (before ++ a :: after) := by
  induction before generalizing head with
  | nil =>
    have hnodup := h.nodup
    obtain ⟨rfl, q, -, hp⟩ := chain_cons_iff.mp h
    obtain ⟨-, q', hq, hafter⟩ := chain_cons_iff.mp hp
    refine .cons ((Function.update_self ..).trans hq) (hafter.congr fun b hb => ?_)
    have hne : b ≠ a := by
      rintro rfl
      simp [hb] at hnodup
    exact Function.update_of_ne hne ..
  | cons b before ih =>
    have hnodup := h.nodup
    obtain ⟨rfl, q, hb, hq⟩ := chain_cons_iff.mp h
    have hne : b ≠ a := by
      rintro rfl
      simp at hnodup
    exact .cons ((Function.update_of_ne hne ..).trans hb) (ih hq)

/-- The node behind `a` is linked from there and from nowhere before. -/
theorem Chain.find?_link {a : ℕ} (h : Chain next head (before ++ a :: p :: after)) :
    (before ++ a :: p :: after).find? (fun b => next b = some (some p)) = some a := by
  induction before generalizing head with
  | nil =>
    obtain ⟨-, q, ha, hq⟩ := chain_cons_iff.mp h
    obtain ⟨rfl, -⟩ := chain_cons_iff.mp hq
    simp [ha]
  | cons b before ih =>
    obtain ⟨-, q, hb, hq⟩ := chain_cons_iff.mp h
    have hne : q ≠ some p := by
      rintro rfl
      have hp : Chain next (some p) ((before ++ [a]) ++ p :: after) := by
        rw [List.append_assoc]
        exact hq
      have hlen := congrArg List.length (hp.unique hp.drop_before)
      simp only [List.length_append, List.length_cons, List.length_nil] at hlen
      omega
    rw [List.cons_append, List.find?_cons_of_neg (by simpa [hb] using hne), ih hq]

theorem Chain.find {stop : ℕ → Bool} {fuel : ℕ} (h : Chain next head nodes)
    (hfuel : nodes.length < fuel) : find next stop fuel head = some (nodes.find? stop) := by
  induction h generalizing fuel with
  | nil =>
    cases fuel with
    | zero => simp at hfuel
    | succ fuel => rfl
  | @cons p q nodes hp _ ih =>
    cases fuel with
    | zero => simp at hfuel
    | succ fuel =>
      rw [LinkedList.find, List.find?_cons]
      cases hstop : stop p with
      | true => simp
      | false =>
        rw [if_neg Bool.false_ne_true, hp, Option.bind_some]
        exact ih (by simpa using hfuel)

theorem Chain.findBefore {stop : ℕ → Bool} {fuel a : ℕ}
    (h : Chain next (some a) (a :: (before ++ p :: after)))
    (hbefore : ∀ b ∈ before, stop b = false) (hp : stop p = true)
    (hfuel : before.length < fuel) :
    findBefore next stop fuel a = some ((a :: before).getLast (List.cons_ne_nil _ _)) := by
  induction before generalizing a fuel with
  | nil =>
    obtain ⟨-, q, hq, hnext⟩ := chain_cons_iff.mp h
    obtain ⟨rfl, -⟩ := chain_cons_iff.mp hnext
    cases fuel with
    | zero => simp at hfuel
    | succ fuel => simp [LinkedList.findBefore, hq, hp]
  | cons b before ih =>
    obtain ⟨-, q, hq, hnext⟩ := chain_cons_iff.mp h
    obtain ⟨rfl, -⟩ := chain_cons_iff.mp hnext
    obtain ⟨hb, hrest⟩ := List.forall_mem_cons.mp hbefore
    cases fuel with
    | zero => simp at hfuel
    | succ fuel =>
      simp only [LinkedList.findBefore, hq, Option.bind_some, hb, Bool.false_eq_true, if_false]
      rw [ih hnext hrest (by simpa using hfuel), List.getLast_cons_cons]

end LinkedList
