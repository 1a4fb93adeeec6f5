import Mathlib.Data.List.Infix

namespace JsonText

inductive Tree
  | null
  | boolean (value : Bool)
  | number (digits : List Char)
  | string (value : List Char)
  | array (elements : List Tree)
  | object (members : List (List Char × Tree))

/-- The value of a member; of several with one name the last counts. -/
def Tree.get : Tree → List Char → Option Tree
  | .object members, name => members.reverse.lookup name
  | _, _ => none

def isWs (c : Char) : Bool := c = ' ' || c = '\t' || c = '\n' || c = '\r'

inductive Ws : List Char → List Char → Prop
  | nil {cs : List Char} : Ws cs cs
  | cons {c : Char} {cs rest : List Char} : isWs c → Ws cs rest → Ws (c :: cs) rest

def isHex (c : Char) : Bool :=
  ('0' ≤ c && c ≤ '9') || ('a' ≤ c && c ≤ 'f') || ('A' ≤ c && c ≤ 'F')

def hexDigit (c : Char) : ℕ :=
  if c ≤ '9' then c.toNat - '0'.toNat
  else if c ≤ 'F' then c.toNat - 'A'.toNat + 10
  else c.toNat - 'a'.toNat + 10

def hexValue (digits : List Char) : ℕ := digits.foldl (fun n c => 16 * n + hexDigit c) 0

structure Hex4 (digits : List Char) : Prop where
  length : digits.length = 4
  isHex : ∀ c ∈ digits, isHex c

def letters : List (Char × Char) :=
  [('"', '"'), ('\\', '\\'), ('/', '/'), ('b', '\x08'), ('f', '\x0c'), ('n', '\n'),
    ('r', '\r'), ('t', '\t')]

inductive Escape : List Char → Char → Prop
  | letter {e c : Char} : (e, c) ∈ letters → Escape ['\\', e] c
  | unicode {ds : List Char} : Hex4 ds → (hexValue ds).isValidChar →
      Escape ('\\' :: 'u' :: ds) (Char.ofNat (hexValue ds))
  | pair {ds es : List Char} : Hex4 ds → Hex4 es →
      0xd800 ≤ hexValue ds → hexValue ds < 0xdc00 →
      0xdc00 ≤ hexValue es → hexValue es < 0xe000 →
      Escape ('\\' :: 'u' :: ds ++ '\\' :: 'u' :: es)
        (Char.ofNat (0x10000 + (hexValue ds - 0xd800) * 0x400 + (hexValue es - 0xdc00)))

def Unescaped (c : Char) : Prop := c ≠ '"' ∧ c ≠ '\\' ∧ ' ' ≤ c

instance (c : Char) : Decidable (Unescaped c) := inferInstanceAs (Decidable (_ ∧ _ ∧ _))

/-- A string after its opening quote. -/
inductive Chars : List Char → List Char → List Char → Prop
  | close {rest : List Char} : Chars ('"' :: rest) [] rest
  | plain {c : Char} {cs s rest : List Char} :
      Unescaped c → Chars cs s rest → Chars (c :: cs) (c :: s) rest
  | escape {e : List Char} {c : Char} {cs s rest : List Char} :
      Escape e c → Chars cs s rest → Chars (e ++ cs) (c :: s) rest

def isDigit (c : Char) : Bool := '0' ≤ c && c ≤ '9'

def Digits (cs : List Char) : Prop := cs ≠ [] ∧ ∀ c ∈ cs, isDigit c

def Integral (cs : List Char) : Prop := Digits cs ∧ (cs = ['0'] ∨ cs.head? ≠ some '0')

def Fraction (cs : List Char) : Prop := cs = [] ∨ ∃ ds, cs = '.' :: ds ∧ Digits ds

def Exponent (cs : List Char) : Prop :=
  cs = [] ∨ ∃ e sign ds, cs = e :: sign ++ ds ∧ (e = 'e' ∨ e = 'E') ∧
    (sign = [] ∨ sign = ['+'] ∨ sign = ['-']) ∧ Digits ds

def Number (cs : List Char) : Prop :=
  ∃ sign int frac exp, cs = sign ++ int ++ frac ++ exp ∧ (sign = [] ∨ sign = ['-']) ∧
    Integral int ∧ Fraction frac ∧ Exponent exp

inductive Named : List Char → List Char → List Char → Prop
  | intro {cs₀ cs₁ cs₂ cs₃ cs₄ name : List Char} :
      Ws cs₀ ('"' :: cs₁) → Chars cs₁ name cs₂ → Ws cs₂ (':' :: cs₃) → Ws cs₃ cs₄ →
      Named cs₀ name cs₄

mutual

inductive Value : List Char → Tree → List Char → Prop
  | null {rest : List Char} : Value ('n' :: 'u' :: 'l' :: 'l' :: rest) .null rest
  | true {rest : List Char} : Value ('t' :: 'r' :: 'u' :: 'e' :: rest) (.boolean true) rest
  | false {rest : List Char} :
      Value ('f' :: 'a' :: 'l' :: 's' :: 'e' :: rest) (.boolean false) rest
  | number {digits rest : List Char} : Number digits → Value (digits ++ rest) (.number digits) rest
  | string {cs s rest : List Char} : Chars cs s rest → Value ('"' :: cs) (.string s) rest
  | emptyArray {cs rest : List Char} : Ws cs (']' :: rest) → Value ('[' :: cs) (.array []) rest
  | array {cs rest : List Char} {vs : List Tree} :
      Elements cs vs rest → Value ('[' :: cs) (.array vs) rest
  | emptyObject {cs rest : List Char} :
      Ws cs ('\x7d' :: rest) → Value ('\x7b' :: cs) (.object []) rest
  | object {cs rest : List Char} {ms : List (List Char × Tree)} :
      Members cs ms rest → Value ('\x7b' :: cs) (.object ms) rest

inductive Elements : List Char → List Tree → List Char → Prop
  | last {cs₀ cs₁ cs₂ rest : List Char} {v : Tree} :
      Ws cs₀ cs₁ → Value cs₁ v cs₂ → Ws cs₂ (']' :: rest) → Elements cs₀ [v] rest
  | cons {cs₀ cs₁ cs₂ cs₃ rest : List Char} {v : Tree} {vs : List Tree} :
      Ws cs₀ cs₁ → Value cs₁ v cs₂ → Ws cs₂ (',' :: cs₃) → Elements cs₃ vs rest →
      Elements cs₀ (v :: vs) rest

inductive Members : List Char → List (List Char × Tree) → List Char → Prop
  | last {cs₀ cs₁ cs₂ rest name : List Char} {v : Tree} :
      Named cs₀ name cs₁ → Value cs₁ v cs₂ → Ws cs₂ ('\x7d' :: rest) →
      Members cs₀ [(name, v)] rest
  | cons {cs₀ cs₁ cs₂ cs₃ rest name : List Char} {v : Tree} {ms : List (List Char × Tree)} :
      Named cs₀ name cs₁ → Value cs₁ v cs₂ → Ws cs₂ (',' :: cs₃) → Members cs₃ ms rest →
      Members cs₀ ((name, v) :: ms) rest

end

def Text (cs : List Char) (v : Tree) : Prop :=
  ∃ cs₁ cs₂, Ws cs cs₁ ∧ Value cs₁ v cs₂ ∧ Ws cs₂ []

theorem Ws.suffix {cs rest : List Char} (h : Ws cs rest) : rest <:+ cs := by
  induction h with
  | nil => exact List.suffix_refl _
  | cons _ _ ih => exact ih.trans (List.suffix_cons _ _)

theorem Chars.suffix {cs s rest : List Char} (h : Chars cs s rest) : rest <:+ cs := by
  induction h with
  | close => exact List.suffix_cons _ _
  | plain _ _ ih => exact ih.trans (List.suffix_cons _ _)
  | escape _ _ ih => exact ih.trans (List.suffix_append _ _)

theorem Named.suffix {cs name rest : List Char} (h : Named cs name rest) : rest <:+ cs := by
  obtain ⟨h₀, h₁, h₂, h₃⟩ := h
  have hcolon := (List.suffix_cons _ _).trans (h₂.suffix.trans h₁.suffix)
  exact (h₃.suffix.trans hcolon).trans ((List.suffix_cons _ _).trans h₀.suffix)

theorem Named.ws {c : Char} {cs name rest : List Char} (hc : isWs c) (h : Named cs name rest) :
    Named (c :: cs) name rest := by
  obtain ⟨h₀, h₁, h₂, h₃⟩ := h
  exact ⟨.cons hc h₀, h₁, h₂, h₃⟩

theorem suffix_of_cons {c : Char} {cs rest : List Char} (h : c :: rest <:+ cs) : rest <:+ cs :=
  (List.suffix_cons _ _).trans h

mutual

theorem Value.suffix {cs rest : List Char} {v : Tree} : Value cs v rest → rest <:+ cs
  | .null => List.suffix_append ['n', 'u', 'l', 'l'] _
  | .true => List.suffix_append ['t', 'r', 'u', 'e'] _
  | .false => List.suffix_append ['f', 'a', 'l', 's', 'e'] _
  | .number _ => List.suffix_append _ _
  | .string h => h.suffix.trans (List.suffix_cons _ _)
  | .emptyArray h => (suffix_of_cons h.suffix).trans (List.suffix_cons _ _)
  | .array h => h.suffix.trans (List.suffix_cons _ _)
  | .emptyObject h => (suffix_of_cons h.suffix).trans (List.suffix_cons _ _)
  | .object h => h.suffix.trans (List.suffix_cons _ _)

theorem Elements.suffix {cs rest : List Char} {vs : List Tree} :
    Elements cs vs rest → rest <:+ cs
  | .last h₀ h₁ h₂ => (suffix_of_cons h₂.suffix).trans (h₁.suffix.trans h₀.suffix)
  | .cons h₀ h₁ h₂ h₃ =>
    h₃.suffix.trans ((suffix_of_cons h₂.suffix).trans (h₁.suffix.trans h₀.suffix))

theorem Members.suffix {cs rest : List Char} {ms : List (List Char × Tree)} :
    Members cs ms rest → rest <:+ cs
  | .last h₀ h₁ h₂ => (suffix_of_cons h₂.suffix).trans (h₁.suffix.trans h₀.suffix)
  | .cons h₀ h₁ h₂ h₃ =>
    h₃.suffix.trans ((suffix_of_cons h₂.suffix).trans (h₁.suffix.trans h₀.suffix))

end

def Follows (rest : List Char) : Prop :=
  ∀ c ∈ rest.head?, isWs c ∨ c ∈ [',', ':', ']', '\x7d']

def Occurs (s cs : List Char) : Prop :=
  ∃ cs' rest, '"' :: cs' <:+ cs ∧ Chars cs' s rest ∧ Follows rest

theorem Occurs.of_suffix {s cs cs' : List Char} (h : Occurs s cs') (hs : cs' <:+ cs) :
    Occurs s cs := by
  obtain ⟨tail, rest, htail, hchars, hfollows⟩ := h
  exact ⟨tail, rest, htail.trans hs, hchars, hfollows⟩

theorem Ws.follows {cs rest : List Char} (h : Ws cs rest) (hrest : Follows rest) : Follows cs := by
  cases h with
  | nil => exact hrest
  | cons hc _ =>
    intro c hmem
    obtain rfl := Option.some.inj hmem
    exact .inl hc

theorem occurs_of_value {cs s rest : List Char} (h : Value cs (.string s) rest)
    (hrest : Follows rest) : Occurs s cs := by
  cases h with
  | string h => exact ⟨_, _, List.suffix_refl _, h, hrest⟩

/-- The string members of an object are written in its text. -/
theorem occurs_of_members {cs rest name s : List Char} {ms : List (List Char × Tree)} :
    Members cs ms rest → (name, Tree.string s) ∈ ms → Occurs s cs
  | .last h₀ h₁ h₂, hmem => by
    obtain ⟨-, rfl⟩ := Prod.mk.inj (List.mem_singleton.mp hmem)
    exact (occurs_of_value h₁ (h₂.follows (by simp [Follows]))).of_suffix h₀.suffix
  | .cons h₀ h₁ h₂ h₃, hmem => by
    rcases List.mem_cons.mp hmem with heq | hmem
    · obtain ⟨-, rfl⟩ := Prod.mk.inj heq
      exact (occurs_of_value h₁ (h₂.follows (by simp [Follows]))).of_suffix h₀.suffix
    · exact (occurs_of_members h₃ hmem).of_suffix
        ((suffix_of_cons h₂.suffix).trans (h₁.suffix.trans h₀.suffix))

theorem mem_of_get {v : Tree} {name : List Char} {w : Tree} (h : v.get name = some w) :
    ∃ ms, v = .object ms ∧ (name, w) ∈ ms := by
  unfold Tree.get at h
  split at h
  · rename_i ms
    obtain ⟨l, k, hl⟩ : ∃ l k, ms.reverse = l ++ (name, w) :: k := by
      obtain ⟨l, k, hl, -⟩ := List.lookup_eq_some_iff.mp h
      exact ⟨l, k, hl⟩
    exact ⟨ms, rfl, List.mem_reverse.mp (by simp [hl])⟩
  · cases h

theorem Text.occurs_of_get {cs s name : List Char} {v : Tree} (h : Text cs v)
    (hv : v.get name = some (.string s)) : Occurs s cs := by
  obtain ⟨cs₁, cs₂, h₁, h₂, h₃⟩ := h
  obtain ⟨ms, rfl, hmem⟩ := mem_of_get hv
  cases h₂ with
  | emptyObject _ => cases hmem
  | object hms =>
    exact (occurs_of_members hms hmem).of_suffix ((List.suffix_cons _ _).trans h₁.suffix)

theorem Escape.length {e : List Char} {c : Char} (h : Escape e c) : 2 ≤ e.length := by
  cases h with
  | letter _ => simp
  | unicode _ _ => simp
  | pair _ _ _ _ _ _ => simp

theorem Hex4.quote_not_mem {ds : List Char} (h : Hex4 ds) : '"' ∉ ds := by
  intro hmem
  exact absurd (h.isHex _ hmem) (by decide)

/-- A quote is escaped only by the letter for it. -/
theorem Escape.quote {e : List Char} {c : Char} (h : Escape e c) :
    '"' ∉ e ∨ e = ['\\', '"'] := by
  cases h with
  | letter hmem =>
    rename_i letter
    by_cases hq : letter = '"'
    · exact .inr (by rw [hq])
    · exact .inl (by simp [Ne.symm hq])
  | unicode h _ => exact .inl (by simp [h.quote_not_mem])
  | pair h h' _ _ _ _ => exact .inl (by simp [h.quote_not_mem, h'.quote_not_mem])

theorem Escape.backslash {e : List Char} {c : Char} (h : Escape e c) : ∃ e', e = '\\' :: e' := by
  cases h with
  | letter _ => exact ⟨_, rfl⟩
  | unicode _ _ => exact ⟨_, rfl⟩
  | pair _ _ _ _ _ _ => exact ⟨_, rfl⟩

theorem append_of_quote_not_mem {e cs a b : List Char} (h : e ++ cs = a ++ '"' :: b)
    (he : '"' ∉ e) : ∃ a', a = e ++ a' ∧ cs = a' ++ '"' :: b := by
  rcases List.append_eq_append_iff.mp h with ⟨a', ha, hcs⟩ | ⟨e', rfl, hcs⟩
  · exact ⟨a', ha, hcs⟩
  · cases e' with
    | nil => exact ⟨[], by simp, hcs.symm⟩
    | cons d e' =>
      obtain ⟨rfl, -⟩ := List.cons.inj hcs
      exact absurd (by simp) he

/-- Up to a quote: the string ends there or before, or the quote is escaped and the string
goes on behind it. -/
theorem Chars.reach {cs s rest a b : List Char} (h : Chars cs s rest) (hcs : cs = a ++ '"' :: b) :
    s.length < a.length ∨ (s = a ∧ ∀ c ∈ a, Unescaped c) ∨ ∃ s', Chars b s' rest := by
  induction h generalizing a with
  | close =>
    cases a with
    | nil => exact .inr (.inl ⟨rfl, by simp⟩)
    | cons d a => exact .inl (by simp)
  | plain hc h ih =>
    cases a with
    | nil => exact absurd (List.cons.inj hcs).1 hc.1
    | cons d a =>
      obtain ⟨rfl, htail⟩ := List.cons.inj hcs
      rcases ih htail with hlt | ⟨rfl, ha⟩ | hb
      · exact .inl (Nat.succ_lt_succ hlt)
      · exact .inr (.inl ⟨rfl, List.forall_mem_cons.mpr ⟨hc, ha⟩⟩)
      · exact .inr (.inr hb)
  | @escape e c cs s rest he h ih =>
    have hlength := he.length
    -- an escape takes more than it stands for
    have hinside {a' : List Char} (ha : a = e ++ a') (htail : cs = a' ++ '"' :: b) :
        (c :: s).length < a.length ∨ (c :: s = a ∧ ∀ c ∈ a, Unescaped c) ∨
          ∃ s', Chars b s' rest := by
      rcases ih htail with hlt | ⟨rfl, -⟩ | hb
      · refine .inl ?_
        simp only [ha, List.length_cons, List.length_append]
        omega
      · refine .inl ?_
        simp only [ha, List.length_cons, List.length_append]
        omega
      · exact .inr (.inr hb)
    rcases he.quote with hq | rfl
    · obtain ⟨a', ha, htail⟩ := append_of_quote_not_mem hcs hq
      exact hinside ha htail
    · match a, hcs with
      | [], hcs => simp at hcs
      | [d], hcs =>
        obtain ⟨-, htail⟩ := List.cons.inj hcs
        exact .inr (.inr ⟨s, (List.cons.inj htail).2 ▸ h⟩)
      | d :: d' :: a', hcs =>
        obtain ⟨rfl, htail⟩ := List.cons.inj hcs
        obtain ⟨rfl, htail'⟩ := List.cons.inj htail
        exact hinside rfl htail'

/-- Where nothing is escaped, a string is what stands before the next quote. -/
theorem Chars.prefix_of_no_backslash {cs s rest a b : List Char} (h : Chars cs s rest)
    (hcs : cs = a ++ b) (ha : '\\' ∉ a) (hb : ∀ c ∈ b.head?, c = '"') :
    cs = s ++ '"' :: rest ∧ s <+: a ∧ ∀ c ∈ s, Unescaped c := by
  induction h generalizing a with
  | close => exact ⟨rfl, List.nil_prefix, by simp⟩
  | plain hc h ih =>
    cases a with
    | nil =>
      refine absurd (hb _ ?_) hc.1
      rw [← show _ = b from hcs]
      rfl
    | cons d a =>
      obtain ⟨rfl, htail⟩ := List.cons.inj hcs
      obtain ⟨heq, hpre, hs⟩ := ih htail fun hmem => ha (List.mem_cons_of_mem _ hmem)
      refine ⟨by rw [heq, List.cons_append], ?_, List.forall_mem_cons.mpr ⟨hc, hs⟩⟩
      exact List.cons_prefix_cons.mpr ⟨rfl, hpre⟩
  | escape he h ih =>
    obtain ⟨e', rfl⟩ := he.backslash
    cases a with
    | nil =>
      refine absurd (hb '\\' ?_) (by decide)
      rw [← show _ = b from hcs]
      rfl
    | cons d a =>
      obtain ⟨rfl, -⟩ := List.cons.inj hcs
      exact absurd List.mem_cons_self ha

/-- After a string in which nothing is escaped comes what stands behind its quote. -/
theorem Chars.rest_eq {s rest a b : List Char} (h : Chars (a ++ '"' :: b) s rest)
    (ha : ∀ c ∈ a, Unescaped c) : rest = b := by
  obtain ⟨heq, hpre, hs⟩ := h.prefix_of_no_backslash rfl (fun hmem => (ha _ hmem).2.1 rfl) (by simp)
  obtain ⟨a', rfl⟩ := hpre
  rw [List.append_assoc, List.append_cancel_left_eq] at heq
  cases a' with
  | nil => exact (List.cons.inj heq).2.symm
  | cons d a' => exact absurd (List.cons.inj heq).1 (ha d (by simp)).1

theorem chars_of_unescaped {s : List Char} (h : ∀ c ∈ s, Unescaped c) (rest : List Char) :
    Chars (s ++ '"' :: rest) s rest := by
  induction s with
  | nil => exact .close
  | cons c s ih =>
    obtain ⟨hc, hs⟩ := List.forall_mem_cons.mp h
    exact .plain hc (ih hs)

theorem quote_suffix_append {cs p x : List Char} (h : '"' :: cs <:+ p ++ x) :
    '"' :: cs <:+ x ∨ ∃ a, '"' :: a <:+ p ∧ cs = a ++ x := by
  obtain ⟨t, ht⟩ := h
  rcases List.append_eq_append_iff.mp ht with ⟨a, hp, ha⟩ | ⟨a, -, hx⟩
  · cases a with
    | nil => exact .inl ⟨[], ha⟩
    | cons d a =>
      obtain ⟨rfl, hcs⟩ := List.cons.inj ha
      exact .inr ⟨a, ⟨t, hp.symm⟩, hcs⟩
  · exact .inl ⟨a, hx.symm⟩

section Splice

variable {s p r q rest : List Char}

/-- A string that starts in `r`, with `q` behind it. -/
theorem Chars.within {r' : List Char} (h : Chars (r' ++ '"' :: q) s rest) (hr : r' <:+ r)
    (hnext : ∀ s', ¬Chars q s' rest) :
    s.length < r.length ∨ (s = r ∧ ∀ c ∈ r, Unescaped c) := by
  have hle := hr.length_le
  rcases h.reach rfl with hlt | ⟨rfl, hs⟩ | ⟨s', hq⟩
  · exact .inl (by omega)
  · by_cases heq : s.length = r.length
    · obtain rfl := hr.eq_of_length heq
      exact .inr ⟨rfl, hs⟩
    · exact .inl (by omega)
  · exact absurd hq (hnext s')

/-- The strings of a text with `r` between quotes.  Those outside `r` have nothing escaped
in them; the others are shorter than `r`, or `r` itself where nothing in it is escaped. -/
theorem Occurs.splice (h : Occurs s (p ++ '"' :: (r ++ '"' :: q))) (hp : '\\' ∉ p)
    (hq : '\\' ∉ q) (hnext : ∀ s' rest, Chars q s' rest → ¬Follows rest) :
    (∀ c ∈ s, Unescaped c ∧ (c ∈ p ∨ c ∈ q)) ∨
      s.length < r.length ∨ (s = r ∧ ∀ c ∈ r, Unescaped c) := by
  obtain ⟨cs, rest, hsuffix, hchars, hfollows⟩ := h
  have hrest : ∀ s', ¬Chars q s' rest := fun s' hs' => hnext s' rest hs' hfollows
  rcases quote_suffix_append hsuffix with hsuffix | ⟨a, ha, rfl⟩
  · rcases List.suffix_cons_iff.mp hsuffix with heq | hsuffix
    · obtain rfl := (List.cons.inj heq).2
      exact .inr (hchars.within (List.suffix_refl r) hrest)
    · rcases quote_suffix_append hsuffix with hsuffix | ⟨a, ha, rfl⟩
      · have hcs : cs <:+ q := by
          rcases List.suffix_cons_iff.mp hsuffix with heq | hsuffix
          · rw [(List.cons.inj heq).2]
          · exact suffix_of_cons hsuffix
        obtain ⟨-, hpre, hs⟩ := hchars.prefix_of_no_backslash (List.append_nil cs).symm
          (fun hmem => hq (hcs.subset hmem)) (by simp)
        exact .inl fun c hc => ⟨hs c hc, .inr (hcs.subset (hpre.subset hc))⟩
      · exact .inr (hchars.within (suffix_of_cons ha) hrest)
  · obtain ⟨-, hpre, hs⟩ := hchars.prefix_of_no_backslash rfl
      (fun hmem => hp ((suffix_of_cons ha).subset hmem)) (by simp)
    exact .inl fun c hc => ⟨hs c hc, .inl ((suffix_of_cons ha).subset (hpre.subset hc))⟩

end Splice

end JsonText
