import Mathlib.Data.List.TakeWhile
import AuroraRelay.CommandScript

/-!
# What `parse_mac` takes for an address

`sscanf` with the format `%02hhx:%02hhx:%02hhx:%02hhx:%02hhx:%02hhx` skips blanks before
each number, takes one digit, a signed digit, two digits or a bare `0x` for it, and does not
look at what is behind the sixth.  The texts it accepts are described here as texts, and compared
with the address texts that the rest of the relay counts on.
-/

namespace AuroraRelay.CommsAgent
open Interaction WarpProtocol

inductive Spells : List Char → List UInt8 → Prop
  | last {c d : Char} {v w : UInt8} (hc : hexDigit c = some v) (hd : hexDigit d = some w) :
    Spells [c, d] [16 * v + w]
  | more {c d : Char} {v w : UInt8} {text : List Char} {octets : List UInt8}
    (hc : hexDigit c = some v) (hd : hexDigit d = some w) (h : Spells text octets) :
    Spells (c :: d :: ':' :: text) ((16 * v + w) :: octets)

/-- The address grammar: six octets of two digits. -/
def IsMacText (s : String) (m : Mac) : Prop := Spells s.toList m.toList

/-- What `%02hhx` converts to a byte, at most two characters. -/
inductive Converts : List Char → UInt8 → Prop
  | pair {c d : Char} {v w : UInt8} (hc : hexDigit c = some v) (hd : hexDigit d = some w) :
    Converts [c, d] (16 * v + w)
  | single {c : Char} {v : UInt8} (hc : hexDigit c = some v) : Converts [c] v
  | plus {d : Char} {v : UInt8} (hd : hexDigit d = some v) : Converts ['+', d] v
  | minus {d : Char} {v : UInt8} (hd : hexDigit d = some v) : Converts ['-', d] (-v)
  | bare {x : Char} (hx : x = 'x' ∨ x = 'X') : Converts ['0', x] 0

/-- One conversion: the blanks skipped and the characters converted. -/
structure Field where
  blanks : List Char
  digits : List Char
  value : UInt8
  blank : ∀ c ∈ blanks, isSpace c
  converts : Converts digits value

namespace Field

def text (f : Field) : List Char := f.blanks ++ f.digits

/-- The conversion stops before `rest`: a digit is alone only before something that is
neither a digit nor the `x` of a prefix. -/
def Ends (f : Field) (rest : List Char) : Prop :=
  ∀ c, f.digits = [c] → ∀ d ∈ rest.head?, hexDigit d = none ∧ ¬(c = '0' ∧ (d = 'x' ∨ d = 'X'))

def Strict (f : Field) : Prop :=
  f.blanks = [] ∧ f.digits.length = 2 ∧ ∀ c ∈ f.digits, (hexDigit c).isSome

end Field

def colonFields : List Field → List Char
  | [] => []
  | f :: fields => ':' :: (f.text ++ colonFields fields)

/-- The six fields that `sscanf` finds, and what it does not look at. -/
structure Scanned where
  first : Field
  more : List Field
  rest : List Char
  six : more.length = 5
  ends : ∀ f ∈ more.getLast?, f.Ends rest

namespace Scanned

def text (x : Scanned) : List Char := x.first.text ++ colonFields x.more ++ x.rest

def octets (x : Scanned) : List UInt8 := x.first.value :: x.more.map Field.value

def Strict (x : Scanned) : Prop :=
  x.rest = [] ∧ ∀ f ∈ x.first :: x.more, f.Strict

end Scanned

/-- The text has the six fields, but with a blank, a sign, a bare prefix, a digit alone or more
behind. -/
def Slack (s : String) : Prop := ∃ x : Scanned, s.toList = x.text ∧ ¬x.Strict

theorem not_isSpace_of_hexDigit {c : Char} {v : UInt8} (h : hexDigit c = some v) :
    isSpace c = false := by
  by_contra hs
  rw [Bool.not_eq_false] at hs
  simp only [isSpace, Bool.or_eq_true, decide_eq_true_eq] at hs
  rcases hs with ((((rfl | rfl) | rfl) | rfl) | rfl) | rfl <;> cases h

theorem ne_of_hexDigit {c d : Char} {v : UInt8} (h : hexDigit c = some v)
    (hd : hexDigit d = none) : c ≠ d := by
  rintro rfl
  rw [hd] at h
  cases h

/-- The first of the converted characters is no blank. -/
theorem Converts.dropWhile {digits : List Char} {value : UInt8} (h : Converts digits value)
    (rest : List Char) : (digits ++ rest).dropWhile isSpace = digits ++ rest := by
  cases h with
  | pair hc hd => simp [not_isSpace_of_hexDigit hc]
  | single hc => simp [not_isSpace_of_hexDigit hc]
  | plus hd => rfl
  | minus hd => rfl
  | bare hx => rfl

theorem hexDigit_x {x : Char} (hx : x = 'x' ∨ x = 'X') : hexDigit x = none := by
  rcases hx with rfl | rfl <;> decide

theorem Field.dropWhile_text (f : Field) (rest : List Char) :
    (f.text ++ rest).dropWhile isSpace = f.digits ++ rest := by
  rw [Field.text, List.append_assoc,
    List.dropWhile_append_of_pos (by simpa using f.blank), f.converts.dropWhile]

theorem scanHexByte_field (f : Field) {rest : List Char} (h : f.Ends rest) :
    scanHexByte (f.text ++ rest) = some (f.value, rest) := by
  rw [scanHexByte, f.dropWhile_text]
  obtain ⟨blanks, digits, value, hblank, hconverts⟩ := f
  cases hconverts with
  | pair hc hd =>
    simp [hc, hd, ne_of_hexDigit hc (show hexDigit '+' = none by decide),
      ne_of_hexDigit hc (show hexDigit '-' = none by decide)]
  | single hc =>
    cases rest with
    | nil => simp [hc]
    | cons d rest =>
      obtain ⟨hd, hx⟩ := h _ rfl d rfl
      simp [hc, hd, hx, ne_of_hexDigit hc (show hexDigit '+' = none by decide),
        ne_of_hexDigit hc (show hexDigit '-' = none by decide)]
  | plus hd => simp [hd]
  | minus hd => simp [hd]
  | bare hx => simp [hx, hexDigit_x hx, show hexDigit '0' = some 0 by decide]

theorem exists_field {input rest : List Char} {b : UInt8}
    (h : scanHexByte input = some (b, rest)) :
    ∃ f : Field, input = f.text ++ rest ∧ f.value = b ∧ f.Ends rest := by
  have hblank : ∀ c ∈ input.takeWhile isSpace, isSpace c := fun c hc => List.mem_takeWhile_imp hc
  have hsplit := (List.takeWhile_append_dropWhile (p := isSpace) (l := input)).symm
  -- whatever is converted, the blanks before it are the ones skipped
  have hfield {digits : List Char} (hdrop : input.dropWhile isSpace = digits ++ rest)
      (hconverts : Converts digits b)
      (hends : ∀ c, digits = [c] → ∀ d ∈ rest.head?,
        hexDigit d = none ∧ ¬(c = '0' ∧ (d = 'x' ∨ d = 'X'))) :
      ∃ f : Field, input = f.text ++ rest ∧ f.value = b ∧ f.Ends rest := by
    refine ⟨⟨_, digits, b, hblank, hconverts⟩, ?_, rfl, hends⟩
    rwa [hdrop, ← List.append_assoc] at hsplit
  unfold scanHexByte at h
  split at h
  · cases h
  · rename_i c hdrop
    obtain ⟨v, hv, he⟩ := Option.map_eq_some_iff.mp h
    obtain ⟨rfl, rfl⟩ := Prod.mk.inj he
    exact hfield hdrop (.single hv) (by simp)
  · rename_i c d tail hdrop
    by_cases hplus : c = '+'
    · rw [if_pos hplus] at h
      obtain ⟨v, hv, he⟩ := Option.map_eq_some_iff.mp h
      obtain ⟨rfl, rfl⟩ := Prod.mk.inj he
      rw [hplus] at hdrop
      exact hfield hdrop (.plus hv) (by simp)
    rw [if_neg hplus] at h
    by_cases hminus : c = '-'
    · rw [if_pos hminus] at h
      obtain ⟨v, hv, he⟩ := Option.map_eq_some_iff.mp h
      obtain ⟨rfl, rfl⟩ := Prod.mk.inj he
      rw [hminus] at hdrop
      exact hfield hdrop (.minus hv) (by simp)
    rw [if_neg hminus] at h
    cases hv : hexDigit c with
    | none => simp [hv] at h
    | some v =>
      cases hw : hexDigit d with
      | some w =>
        simp only [hv, hw] at h
        obtain ⟨rfl, rfl⟩ := Prod.mk.inj (Option.some.inj h)
        exact hfield hdrop (.pair hv hw) (by simp)
      | none =>
        simp only [hv, hw] at h
        by_cases hx : c = '0' ∧ (d = 'x' ∨ d = 'X')
        · rw [if_pos hx] at h
          obtain ⟨rfl, rfl⟩ := Prod.mk.inj (Option.some.inj h)
          obtain ⟨rfl, hx⟩ := hx
          obtain rfl : 0 = v := Option.some.inj hv
          exact hfield hdrop (.bare hx) (by simp)
        rw [if_neg hx] at h
        obtain ⟨rfl, rfl⟩ := Prod.mk.inj (Option.some.inj h)
        refine hfield hdrop (.single hv) ?_
        intro c' hc' d' hd'
        obtain rfl := List.singleton_inj.mp hc'
        obtain rfl := Option.some.inj hd'
        exact ⟨hw, hx⟩

def scanColonHexBytes : ℕ → List Char → Option (List UInt8 × List Char)
  | 0, input => some ([], input)
  | n + 1, input => do
    let (b, input) ← scanColonHexByte input
    let (bs, input) ← scanColonHexBytes n input
    return (b :: bs, input)

theorem parseMac_eq_some_iff {s : String} {m : Mac} :
    parseMac s = some m ↔ ∃ b bs input rest, scanHexByte s.toList = some (b, input) ∧
      scanColonHexBytes 5 input = some (bs, rest) ∧ m.toList = b :: bs := by
  have hlist (b0 b1 b2 b3 b4 b5 : UInt8) :
      #v[b0, b1, b2, b3, b4, b5].toList = [b0, b1, b2, b3, b4, b5] := rfl
  simp only [parseMac, scanColonHexBytes, Option.bind_eq_bind, Option.bind_eq_some_iff,
    Option.pure_def, Option.some.injEq, Prod.exists, Prod.mk.injEq]
  constructor
  · rintro ⟨b0, i0, h0, b1, i1, h1, b2, i2, h2, b3, i3, h3, b4, i4, h4, b5, i5, h5, rfl⟩
    refine ⟨b0, _, i0, i5, h0, ⟨b1, i1, h1, _, _, ⟨b2, i2, h2, _, _, ⟨b3, i3, h3, _, _,
      ⟨b4, i4, h4, _, _, ⟨b5, i5, h5, _, _, ⟨rfl, rfl⟩, rfl, rfl⟩, rfl, rfl⟩, rfl, rfl⟩, rfl, rfl⟩,
      rfl, rfl⟩, hlist _ _ _ _ _ _⟩
  · rintro ⟨b0, _, i0, rest, h0, ⟨b1, i1, h1, _, _, ⟨b2, i2, h2, _, _, ⟨b3, i3, h3, _, _,
      ⟨b4, i4, h4, _, _, ⟨b5, i5, h5, _, _, ⟨rfl, rfl⟩, rfl, rfl⟩, rfl, rfl⟩, rfl, rfl⟩, rfl, rfl⟩,
      rfl, rfl⟩, hm⟩
    refine ⟨b0, i0, h0, b1, i1, h1, b2, i2, h2, b3, i3, h3, b4, i4, h4, b5, _, h5, ?_⟩
    rw [← hlist] at hm
    exact (Vector.toList_inj.mp hm).symm

theorem Field.ends_colon (f : Field) (rest : List Char) : f.Ends (':' :: rest) := by
  intro c hc d hd
  obtain rfl := Option.some.inj hd
  exact ⟨by decide, fun h => by simp at h⟩

theorem scanColonHexBytes_fields {fields : List Field} {rest : List Char}
    (h : ∀ f ∈ fields.getLast?, f.Ends rest) :
    scanColonHexBytes fields.length (colonFields fields ++ rest) =
      some (fields.map Field.value, rest) := by
  induction fields with
  | nil => rfl
  | cons f fields ih =>
    have hends : f.Ends (colonFields fields ++ rest) := by
      cases fields with
      | nil => exact h f rfl
      | cons g fields => exact f.ends_colon _
    have hmore : ∀ g ∈ fields.getLast?, g.Ends rest := by
      intro g hg
      apply h g
      rw [List.getLast?_cons, Option.mem_def.mp hg]
      rfl
    have hscan : scanColonHexByte (':' :: (f.text ++ (colonFields fields ++ rest))) =
        some (f.value, colonFields fields ++ rest) := scanHexByte_field f hends
    simp [colonFields, scanColonHexBytes, hscan, ih hmore]

theorem exists_fields {n : ℕ} {input rest : List Char} {bs : List UInt8}
    (h : scanColonHexBytes n input = some (bs, rest)) :
    ∃ fields : List Field, fields.length = n ∧ input = colonFields fields ++ rest ∧
      fields.map Field.value = bs ∧ ∀ f ∈ fields.getLast?, f.Ends rest := by
  induction n generalizing input bs with
  | zero =>
    obtain ⟨rfl, rfl⟩ := Prod.mk.inj (Option.some.inj h)
    exact ⟨[], rfl, rfl, rfl, by simp⟩
  | succ n ih =>
    obtain ⟨⟨b, input'⟩, hscan, h⟩ := Option.bind_eq_some_iff.mp h
    obtain ⟨⟨bs', rest'⟩, hmore, h⟩ := Option.bind_eq_some_iff.mp h
    obtain ⟨rfl, rfl⟩ := Prod.mk.inj (Option.some.inj h)
    unfold scanColonHexByte at hscan
    split at hscan
    · rename_i input
      obtain ⟨f, rfl, rfl, hends⟩ := exists_field hscan
      obtain ⟨fields, rfl, rfl, rfl, hlast⟩ := ih hmore
      refine ⟨f :: fields, rfl, by simp [colonFields], rfl, ?_⟩
      intro g hg
      cases fields with
      | nil =>
        obtain rfl := Option.some.inj hg
        exact hends
      | cons f' fields =>
        exact hlast g (by rwa [List.getLast?_cons_cons] at hg)
    · cases hscan

/-- `parse_mac` accepts exactly the texts in which six fields can be found. -/
theorem parseMac_iff_scanned {s : String} {m : Mac} :
    parseMac s = some m ↔ ∃ x : Scanned, s.toList = x.text ∧ m.toList = x.octets := by
  rw [parseMac_eq_some_iff]
  constructor
  · rintro ⟨b, bs, input, rest, hfirst, hmore, hm⟩
    obtain ⟨f, htext, rfl, hends⟩ := exists_field hfirst
    obtain ⟨fields, hlength, rfl, rfl, hlast⟩ := exists_fields hmore
    exact ⟨⟨f, fields, rest, hlength, hlast⟩, by rw [htext, Scanned.text, List.append_assoc], hm⟩
  · rintro ⟨⟨f, fields, rest, hlength, hlast⟩, htext, hm⟩
    have hends : f.Ends (colonFields fields ++ rest) := by
      cases fields with
      | nil => cases hlength
      | cons g fields => exact f.ends_colon _
    refine ⟨f.value, fields.map Field.value, colonFields fields ++ rest, rest, ?_, ?_, hm⟩
    · rw [htext, Scanned.text, List.append_assoc]
      exact scanHexByte_field f hends
    · rw [← hlength]
      exact scanColonHexBytes_fields hlast

def pairField {c d : Char} {v w : UInt8} (hc : hexDigit c = some v) (hd : hexDigit d = some w) :
    Field :=
  ⟨[], [c, d], 16 * v + w, by simp, .pair hc hd⟩

theorem Field.strict_iff (f : Field) :
    f.Strict ↔ ∃ (c d : Char) (v w : UInt8) (hc : hexDigit c = some v) (hd : hexDigit d = some w),
      f = pairField hc hd := by
  obtain ⟨blanks, digits, value, hblank, hconverts⟩ := f
  constructor
  · rintro ⟨hb, hlength, hdigits⟩
    cases hconverts with
    | pair hc hd => exact ⟨_, _, _, _, hc, hd, by simp_all [pairField]⟩
    | single hc => cases hlength
    | plus hd => cases hdigits '+' (by simp)
    | minus hd => cases hdigits '-' (by simp)
    | @bare x hx =>
      have hdigit := hdigits x (by simp)
      rw [hexDigit_x hx] at hdigit
      cases hdigit
  · rintro ⟨c, d, v, w, hc, hd, he⟩
    injection he with hb hdigits
    subst hb hdigits
    exact ⟨rfl, rfl, by simp [hc, hd]⟩

theorem spells_iff {text : List Char} {octets : List UInt8} :
    Spells text octets ↔ ∃ (f : Field) (fields : List Field), text = f.text ++ colonFields fields ∧
      octets = f.value :: fields.map Field.value ∧ ∀ g ∈ f :: fields, g.Strict := by
  constructor
  · intro h
    induction h with
    | last hc hd =>
      refine ⟨pairField hc hd, [], rfl, rfl, ?_⟩
      intro g hg
      rw [List.mem_singleton.mp hg]
      exact (Field.strict_iff _).mpr ⟨_, _, _, _, hc, hd, rfl⟩
    | more hc hd h ih =>
      obtain ⟨f, fields, rfl, rfl, hstrict⟩ := ih
      refine ⟨pairField hc hd, f :: fields, rfl, rfl, ?_⟩
      intro g hg
      rcases List.mem_cons.mp hg with rfl | hg
      · exact (Field.strict_iff _).mpr ⟨_, _, _, _, hc, hd, rfl⟩
      · exact hstrict g hg
  · rintro ⟨f, fields, rfl, rfl, hstrict⟩
    induction fields generalizing f with
    | nil =>
      obtain ⟨c, d, v, w, hc, hd, rfl⟩ := f.strict_iff.mp (hstrict f (by simp))
      exact .last hc hd
    | cons g fields ih =>
      obtain ⟨c, d, v, w, hc, hd, rfl⟩ := f.strict_iff.mp (hstrict f (by simp))
      exact .more hc hd (ih g fun k hk => hstrict k (List.mem_cons_of_mem _ hk))

/-- Where two digits stand, the field is these two digits. -/
theorem Field.strict_of_digits {f : Field} {c d : Char} {v w : UInt8} {tail rest : List Char}
    (hc : hexDigit c = some v) (hd : hexDigit d = some w)
    (htext : c :: d :: tail = f.text ++ rest) (hends : f.Ends rest) : f.Strict ∧ rest = tail := by
  have hpair : scanHexByte (c :: d :: tail) = some (16 * v + w, tail) :=
    scanHexByte_field (pairField hc hd) (by simp [Field.Ends, pairField])
  rw [htext, scanHexByte_field f hends] at hpair
  obtain rfl : rest = tail := (Prod.mk.inj (Option.some.inj hpair)).2
  refine ⟨?_, rfl⟩
  have hdigits : [c, d] = f.text := List.append_cancel_right htext
  have hblanks : f.blanks = [] := by
    cases hb : f.blanks with
    | nil => rfl
    | cons b blanks =>
      rw [Field.text, hb] at hdigits
      have hspace := f.blank b (by simp [hb])
      rw [← (List.cons.inj hdigits).1, not_isSpace_of_hexDigit hc] at hspace
      cases hspace
  rw [Field.text, hblanks, List.nil_append] at hdigits
  exact ⟨hblanks, by simp [← hdigits], by simp [← hdigits, hc, hd]⟩

/-- An address text can be read in one way only. -/
theorem Spells.strict {text rest : List Char} {octets : List UInt8} {f : Field}
    {fields : List Field} (h : Spells text octets) (hlength : octets.length = fields.length + 1)
    (htext : text = f.text ++ (colonFields fields ++ rest))
    (hends : ∀ g ∈ (f :: fields).getLast?, g.Ends rest) :
    rest = [] ∧ ∀ g ∈ f :: fields, g.Strict := by
  induction h generalizing f fields with
  | last hc hd =>
    obtain rfl : fields = [] := by simpa using hlength
    obtain ⟨hstrict, hrest⟩ := Field.strict_of_digits hc hd htext (hends f rfl)
    exact ⟨hrest, by simpa using hstrict⟩
  | more hc hd h ih =>
    cases fields with
    | nil => cases h <;> cases hlength
    | cons g fields =>
      obtain ⟨hstrict, hrest⟩ := Field.strict_of_digits hc hd htext (f.ends_colon _)
      rw [colonFields, List.cons_append, List.append_assoc] at hrest
      obtain ⟨hnil, hmore⟩ := ih (Nat.succ.inj hlength) (List.cons.inj hrest).2.symm
        (by rwa [List.getLast?_cons_cons] at hends)
      refine ⟨hnil, fun k hk => ?_⟩
      rcases List.mem_cons.mp hk with rfl | hk
      · exact hstrict
      · exact hmore k hk

theorem Scanned.strict_of_isMacText {s : String} {m : Mac} {x : Scanned} (h : IsMacText s m)
    (htext : s.toList = x.text) : x.Strict := by
  have hlength : m.toList.length = x.more.length + 1 := by rw [x.six, Vector.length_toList]
  refine Spells.strict h hlength (by rw [htext, Scanned.text, List.append_assoc]) ?_
  intro g hg
  apply x.ends g
  cases hmore : x.more with
  | nil => simp [hmore] at hlength
  | cons k fields => rwa [hmore, List.getLast?_cons_cons] at hg

theorem isMacText_of_strict {s : String} {m : Mac} {x : Scanned} (htext : s.toList = x.text)
    (hm : m.toList = x.octets) (h : x.Strict) : IsMacText s m := by
  refine spells_iff.mpr ⟨x.first, x.more, ?_, hm, h.2⟩
  rw [htext, Scanned.text, h.1, List.append_nil]

theorem exists_scanned_of_isMacText {s : String} {m : Mac} (h : IsMacText s m) :
    ∃ x : Scanned, s.toList = x.text ∧ m.toList = x.octets := by
  obtain ⟨f, fields, htext, hm, hstrict⟩ := spells_iff.mp h
  have hlength : fields.length = 5 := by
    have := congrArg List.length hm
    simpa using this.symm
  refine ⟨⟨f, fields, [], hlength, fun g hg => ?_⟩, htext.trans (List.append_nil _).symm, hm⟩
  intro c hc d hd
  cases hd

theorem parseMac_of_isMacText {s : String} {m : Mac} (h : IsMacText s m) : parseMac s = some m :=
  parseMac_iff_scanned.mpr (exists_scanned_of_isMacText h)

/-- Every character of an address text is a digit or a colon. -/
theorem Spells.chars {text : List Char} {octets : List UInt8} (h : Spells text octets) :
    ∀ c ∈ text, (hexDigit c).isSome ∨ c = ':' := by
  induction h with
  | last hc hd => simp [hc, hd]
  | more hc hd h ih => simpa [hc, hd] using ih

def hexChar (n : Fin 16) : Char := "0123456789abcdef".toList.getD n '0'

theorem hexDigit_hexChar (n : Fin 16) : hexDigit (hexChar n) = some (UInt8.ofNat n) := by
  revert n
  decide

def printOctets : List UInt8 → List Char
  | [] => []
  | [b] => [hexChar (Fin.ofNat 16 (b.toNat / 16)), hexChar (Fin.ofNat 16 b.toNat)]
  | b :: bs => hexChar (Fin.ofNat 16 (b.toNat / 16)) :: hexChar (Fin.ofNat 16 b.toNat) :: ':' ::
      printOctets bs

theorem octet_eq (b : UInt8) :
    16 * UInt8.ofNat (Fin.ofNat 16 (b.toNat / 16)) + UInt8.ofNat (Fin.ofNat 16 b.toNat) = b := by
  have hb := b.toNat_lt
  rw [← UInt8.toNat_inj]
  simp only [UInt8.toNat_add, UInt8.toNat_mul, UInt8.toNat_ofNat', Fin.val_ofNat, UInt8.reduceToNat]
  omega

theorem spells_printOctets {bs : List UInt8} (h : bs ≠ []) : Spells (printOctets bs) bs := by
  induction bs with
  | nil => exact absurd rfl h
  | cons b bs ih =>
    cases bs with
    | nil =>
      have hlast := Spells.last (hexDigit_hexChar (Fin.ofNat 16 (b.toNat / 16)))
        (hexDigit_hexChar (Fin.ofNat 16 b.toNat))
      rwa [octet_eq] at hlast
    | cons b' bs =>
      have hmore := Spells.more (hexDigit_hexChar (Fin.ofNat 16 (b.toNat / 16)))
        (hexDigit_hexChar (Fin.ofNat 16 b.toNat)) (ih (List.cons_ne_nil _ _))
      rwa [octet_eq] at hmore

def printMac (m : Mac) : String := String.ofList (printOctets m.toList)

theorem isMacText_printMac (m : Mac) : IsMacText (printMac m) m := by
  rw [IsMacText, printMac, String.toList_ofList]
  exact spells_printOctets (by simp [← List.length_eq_zero_iff])

def addressKeys : NodeOp → List String
  | .bssidAdd | .bssidRemove => [jsonMacAddress]
  | .bssidMacAssociate | .bssidMacDisassociate => [jsonBssid, jsonMacAddress]
  | _ => []

/-- For some answers of WARP `parse_json` passes the text on to the nodes. -/
def PassedOn (s : String) : Prop :=
  ∃ (jsonLoads : String → Option Json) (command : String) (root : Json) (answers : ℕ → TimedReply)
    (op : NodeOp) (text key : String), jsonLoads command = some root ∧
    (op, text) ∈ updates (transcript answers (parseJson jsonLoads command)).1 ∧
    key ∈ addressKeys op ∧ objectGet (objectGet root jsonChanges) key = some (.string s)

theorem mem_updates {t : Trace} {op : NodeOp} {text : String} (h : (op, text) ∈ updates t) :
    ⟨.updateBssids op text, ()⟩ ∈ t := by
  obtain ⟨⟨c, r⟩, he, h⟩ := List.mem_flatMap.mp h
  cases c with
  | updateBssids op' text' =>
    obtain ⟨rfl, rfl⟩ := Prod.mk.inj (List.mem_singleton.mp h)
    exact he
  | sync op' packet => cases h
  | timedSync op' limit => cases h
  | setMessage message => cases h

theorem plan_of_mem_updates {jsonLoads : String → Option Json} {command : String} {root : Json}
    {answers : ℕ → TimedReply} {op : NodeOp} {text : String} (hroot : jsonLoads command = some root)
    (h : (op, text) ∈ updates (transcript answers (parseJson jsonLoads command)).1) :
    ∃ P, plan root = some P ∧ op = P.op := by
  obtain ⟨s, hs, -⟩ := (parseJson_obeys jsonLoads command).observe_run (answer answers) 0
  obtain ⟨s₀, next, hM⟩ := allowed_of_observe hs (mem_updates h)
  obtain ⟨P, hP, -, hop, -, -⟩ := monitor_updateBssids hM
  rw [planOf, hroot] at hP
  exact ⟨P, hP, hop⟩

theorem addressOf_isSome {root : Json} {key s : String} {found : String × Mac}
    (h : addressOf root key = some found)
    (hs : objectGet (objectGet root jsonChanges) key = some (.string s)) :
    ∃ m, parseMac s = some m := by
  rw [addressOf, hs] at h
  obtain ⟨m, hm, -⟩ := Option.map_eq_some_iff.mp h
  exact ⟨m, hm⟩

/-- The addresses of a plan have been parsed. -/
theorem plan_addresses {root : Json} {P : Plan} (h : plan root = some P) {key : String}
    (hkey : key ∈ addressKeys P.op) : ∃ found, addressOf root key = some found := by
  obtain ⟨command, -, ⟨x, hx, hP⟩ | ⟨x, y, hx, hy, hP⟩⟩ := plan_inversion h
  · have hkeys : addressKeys P.op = [jsonMacAddress] := by
      rcases hP with ⟨-, rfl⟩ | ⟨-, rfl⟩ <;> rfl
    rw [hkeys, List.mem_singleton] at hkey
    exact ⟨x, hkey ▸ hx⟩
  · have hkeys : addressKeys P.op = [jsonBssid, jsonMacAddress] := by
      rcases hP with ⟨-, rfl⟩ | ⟨-, rfl⟩ <;> rfl
    rw [hkeys, List.mem_pair] at hkey
    rcases hkey with rfl | rfl
    · exact ⟨x, hx⟩
    · exact ⟨y, hy⟩

/-- Nothing is passed on that `parse_mac` has not accepted. -/
theorem PassedOn.accepted {s : String} (h : PassedOn s) : ∃ m, parseMac s = some m := by
  obtain ⟨jsonLoads, command, root, answers, op, text, key, hroot, hupdate, hkey, hs⟩ := h
  obtain ⟨P, hP, rfl⟩ := plan_of_mem_updates hroot hupdate
  obtain ⟨found, hfound⟩ := plan_addresses hP hkey
  exact addressOf_isSome hfound hs

/-- `parse_mac` accepts the text just when it is an address text, with the octets it spells;
and as far as it is passed on, it holds nothing that a quoted shell word or the bar of a
message could trip over. -/
structure ReadExactly (s : String) : Prop where
  grammar : ∀ m, parseMac s = some m ↔ IsMacText s m
  harmless : PassedOn s → (∀ c ∈ s.toList, (hexDigit c).isSome ∨ c = ':') ∧
    '\'' ∉ s.toList ∧ '|' ∉ s.toList

/-- A text is read exactly unless its six fields are there with some slack. -/
theorem parse_mac_exact_iff (s : String) : ReadExactly s ↔ ¬Slack s := by
  constructor
  · rintro h ⟨x, htext, hslack⟩
    -- the six octets found, as an array
    have hlength : x.octets.length = 6 := by simp [Scanned.octets, x.six]
    have hm : (⟨x.octets.toArray, by simpa using hlength⟩ : Mac).toList = x.octets := rfl
    have haccepted := parseMac_iff_scanned.mpr ⟨x, htext, hm⟩
    exact hslack (Scanned.strict_of_isMacText ((h.grammar _).mp haccepted) htext)
  · intro h
    have hgrammar : ∀ m, parseMac s = some m ↔ IsMacText s m := by
      intro m
      rw [parseMac_iff_scanned]
      constructor
      · rintro ⟨x, htext, hm⟩
        by_contra hnot
        exact h ⟨x, htext, fun hstrict => hnot (isMacText_of_strict htext hm hstrict)⟩
      · exact exists_scanned_of_isMacText
    refine ⟨hgrammar, fun hpassed => ?_⟩
    obtain ⟨m, hm⟩ := hpassed.accepted
    have hchars := ((hgrammar m).mp hm).chars
    refine ⟨hchars, fun hq => ?_, fun hb => ?_⟩
    · exact absurd (hchars _ hq) (by decide)
    · exact absurd (hchars _ hb) (by decide)

/-- An address with a quote and a command behind it is accepted. -/
theorem parse_mac_takes_a_quote : ¬∀ s, ReadExactly s := by
  intro h
  have hm : parseMac "02:00:00:00:00:01'; reboot; '" = some #v[2, 0, 0, 0, 0, 1] := by decide
  have hchars := Spells.chars (((h _).grammar _).mp hm) '\'' (by decide)
  exact absurd hchars (by decide)

end AuroraRelay.CommsAgent
