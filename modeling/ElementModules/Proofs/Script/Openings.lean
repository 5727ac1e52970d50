import ElementModules.Proofs.Prefixes
import ElementModules.Proofs.Script.Bindings
import ElementModules.Proofs.Script.Enclosed
import ElementModules.Proofs.Script.Offsets
import Mathlib.Data.List.Infix

/-!
# Heads as they are written

What a reader of heads goes past is made of words, blanks and an equals sign
(`BindingStart.exists_eq_of_parse?`), which all are plain. So the scan is in code outside all
brackets in front of the brace of a first literal, and one bracket is open behind it
(`exists_eq_of_firstLiteral?`).

The name that is bound stands behind the last word in front of the equals sign. So the end of a head
tells the name: whatever stands in front, a head that ends with `name = {` binds that name
(`BindingStart.identifier_eq_of_parse?`).

## Main results

* `BindingStart.exists_eq_of_parse?`: what a head is made of.
* `BindingStart.identifier_eq_of_parse?`: the end of a head tells the name.
* `boundLiteral?_eq`: the literal behind a head.
* `exists_head_of_firstHead`, `wordy_of_firstHead`: how the first head is scanned.
* `exists_eq_of_firstLiteral?`: where the body of the first literal stands.
-/

namespace ElementModules.Script

open Text

/-! ### What readers of tokens go past -/

namespace Token

theorem exists_eq_blanks (t : Text) : ∃ g, t = g ++ blanks t ∧ ∀ c ∈ g, isAsciiBlank c = true :=
  ⟨t.takeWhile isAsciiBlank, (List.takeWhile_append_dropWhile).symm,
    fun _ hc => List.mem_takeWhile_imp hc⟩

theorem someBlanks?_eq_some {t r : Text} (h : someBlanks? t = some r) :
    ∃ g x, t = g ++ x :: r ∧ (∀ c ∈ g, isAsciiBlank c = true) ∧ isAsciiBlank x = true := by
  rw [someBlanks?] at h
  split at h
  · rename_i hany
    obtain rfl := Option.some.inj h
    cases t with
    | nil => cases hany
    | cons c t =>
      have hc : isAsciiBlank c = true := hany
      have hdrop : blanks (c :: t) = blanks t := List.dropWhile_cons_of_pos hc
      obtain ⟨g, hg, hb⟩ := exists_eq_blanks t
      obtain ⟨g', x, hx⟩ := (List.eq_nil_or_concat (c :: g)).resolve_left (by simp)
      rw [List.concat_eq_append] at hx
      have hall : ∀ d ∈ g' ++ [x], isAsciiBlank d = true := by
        rw [← hx]
        intro d hd
        rcases List.mem_cons.1 hd with rfl | hd
        · exact hc
        · exact hb d hd
      have ht : c :: t = c :: g ++ blanks t := by rw [List.cons_append, ← hg]
      refine ⟨g', x, ?_, fun d hd => hall d (List.mem_append_left _ hd), hall x (by simp)⟩
      rw [hdrop, ht, hx, List.append_assoc, List.singleton_append]
  · cases h

theorem char?_eq_some {c : Char} {t r : Text} (h : char? c t = some r) : t = c :: r := by
  cases t with
  | nil => cases h
  | cons d t =>
    rw [char?] at h
    split at h
    · rename_i hd
      rw [← Option.some.inj h, hd]
    · cases h

end Token

/-- A character of a head. -/
def isWordy (c : Char) : Bool := Token.isNameChar c || isAsciiBlank c || c = '='

theorem isPlain_of_isWordy {c : Char} (h : isWordy c = true) : isPlain c = true := by
  simp only [isWordy, Bool.or_eq_true, decide_eq_true_eq] at h
  rcases h with (h | h) | rfl
  · exact isPlain_of_isNameChar h
  · exact isPlain_of_isBlank (isBlank_of_isAsciiBlank h)
  · rfl

theorem isNameChar_word (k : Declarator) : ∀ c ∈ k.word, Token.isNameChar c = true := by
  cases k <;> exact List.all_eq_true.1 (by decide)

namespace BindingStart

/-- **What a head is made of**: words, a blank, the name, an equals sign between blanks, and the
brace. -/
theorem exists_eq_of_parse? {t : Text} {b : BindingStart} (h : parse? t = some b) :
    ∃ w x g g', t = w ++ x :: (b.identifier ++ g ++ '=' :: (g' ++ b.opening))
      ∧ (∀ c ∈ w, isWordy c = true) ∧ isAsciiBlank x = true
      ∧ (∀ c ∈ g, isAsciiBlank c = true) ∧ ∀ c ∈ g', isAsciiBlank c = true := by
  have hword : ∀ {w : Text}, (∀ c ∈ w, Token.isNameChar c = true) → ∀ c ∈ w, isWordy c = true :=
    fun hw c hc => by simp [isWordy, hw c hc]
  have hblank : ∀ {w : Text}, (∀ c ∈ w, isAsciiBlank c = true) → ∀ c ∈ w, isWordy c = true :=
    fun hw c hc => by simp [isWordy, hw c hc]
  simp only [parse?_eq, Option.bind_eq_some_iff, Option.map_eq_some_iff] at h
  obtain ⟨⟨e, t₁⟩, h₁, ⟨k, t₂⟩, h₂, t₃, h₃, ⟨n, t₄⟩, h₄, t₅, h₅, o, h₆, rfl⟩ := h
  obtain ⟨w₁, rfl, hw₁⟩ : ∃ w, t = w ++ t₁ ∧ ∀ c ∈ w, isWordy c = true := by
    rw [exportWord?] at h₁
    split at h₁
    · rename_i rest hw
      obtain ⟨u, hu, he⟩ := Option.map_eq_some_iff.1 h₁
      obtain ⟨-, rfl⟩ := Prod.mk.inj he
      obtain ⟨rfl, -⟩ := Token.word?_eq_some hw
      obtain ⟨g, x, rfl, hg, hx⟩ := Token.someBlanks?_eq_some hu
      refine ⟨("export" : Text) ++ (g ++ [x]), by simp, ?_⟩
      have hexport : ∀ c ∈ ("export" : Text), Token.isNameChar c = true :=
        List.all_eq_true.1 (by decide)
      simp only [List.mem_append, List.mem_singleton]
      rintro c (hc | hc | rfl)
      · exact hword hexport c hc
      · exact hblank hg c hc
      · simp [isWordy, hx]
    · obtain ⟨-, rfl⟩ := Prod.mk.inj (Option.some.inj h₁)
      exact ⟨[], rfl, by simp⟩
  obtain ⟨rfl, -⟩ := Token.word?_eq_some (Declarator.word?_of_parse? h₂)
  obtain ⟨g, x, rfl, hg, hx⟩ := Token.someBlanks?_eq_some h₃
  obtain ⟨rfl, -, -⟩ := Token.name?_eq_some h₄
  obtain ⟨g₁, hg₁, hb₁⟩ := Token.exists_eq_blanks t₄
  obtain ⟨g₂, hg₂, hb₂⟩ := Token.exists_eq_blanks t₅
  rw [Token.char?_eq_some h₅] at hg₁
  rw [brace?] at h₆
  split at h₆
  · obtain rfl := Option.some.inj h₆
    refine ⟨w₁ ++ k.word ++ g, x, g₁, g₂, ?_, ?_, hx, hb₁, hb₂⟩
    · simp only
      rw [← hg₂, hg₁]
      simp
    · simp only [List.mem_append]
      rintro c ((hc | hc) | hc)
      · exact hw₁ c hc
      · exact hword (isNameChar_word k) c hc
      · exact hblank hg c hc
  · cases h₆

/-- What stands in front of the brace of a head is wordy. -/
theorem exists_wordy_of_parse? {t : Text} {b : BindingStart} (h : parse? t = some b) :
    ∃ w, t = w ++ b.opening ∧ w ≠ [] ∧ ∀ c ∈ w, isWordy c = true := by
  have hname : isName b.identifier = true := (parse?_eq_some h).2.2
  obtain ⟨w, x, g, g', ht, hw, hx, hg, hg'⟩ := exists_eq_of_parse? h
  refine ⟨w ++ x :: (b.identifier ++ g ++ '=' :: g'), by rw [ht]; simp, by simp, fun c hc => ?_⟩
  simp only [List.mem_append, List.mem_cons] at hc
  rcases hc with hc | rfl | (hc | hc) | rfl | hc
  · exact hw c hc
  · simp [isWordy, hx]
  · simp [isWordy, isNameChar_of_mem hname hc]
  · simp [isWordy, hg c hc]
  · rfl
  · simp [isWordy, hg' c hc]

/-! ### The name -/

/-- **The end of a head tells the name**: a head that ends with a name, an equals sign and the brace
binds that name. -/
theorem identifier_eq_of_parse? {a n r : Text} (ha : '\x7b' ∉ a) (hn : isName n = true)
    {b : BindingStart} (h : parse? (a ++ ' ' :: (n ++ ' ' :: '=' :: ' ' :: '\x7b' :: r)) = some b) :
    b.identifier = n := by
  obtain ⟨hopen, -, hname⟩ := parse?_eq_some h
  have hfront : ∀ c ∈ a ++ ' ' :: (n ++ [' ', '=', ' ']), c ≠ '\x7b' := by
    intro c hc
    simp only [List.mem_append, List.mem_cons, List.not_mem_nil, or_false] at hc
    rcases hc with hc | rfl | hc | rfl | rfl | rfl
    · exact fun he => ha (he ▸ hc)
    · decide
    · exact ne_of_class (isNameChar_of_mem hn hc) rfl
    · decide
    · decide
    · decide
  have hopening : b.opening = '\x7b' :: r := by
    have hsplit : a ++ ' ' :: (n ++ ' ' :: '=' :: ' ' :: '\x7b' :: r)
        = a ++ ' ' :: (n ++ [' ', '=', ' ']) ++ '\x7b' :: r := by simp
    rw [hopen, hsplit, fromBrace, List.dropWhile_append_of_pos fun c hc => by simpa using hfront c hc]
    exact List.dropWhile_cons_of_neg (by simp)
  obtain ⟨w, x, g, g', ht, -, hx, hg, hg'⟩ := exists_eq_of_parse? h
  have hlast : ∀ {n : Text}, isName n = true → ∃ i y, n = i ++ [y] ∧ isAsciiBlank y = false := by
    intro n hn
    obtain ⟨i, y, rfl⟩ := (List.eq_nil_or_concat n).resolve_left (ne_nil_of_isName hn)
    rw [List.concat_eq_append] at hn ⊢
    refine ⟨i, y, rfl, ?_⟩
    have hy := (isHeadChar_of_isNameChar (isNameChar_of_mem hn (c := y) (by simp))).1
    exact hy
  -- from the brace backwards: blanks, the equals sign, blanks, the name
  have h₁ : (a ++ ' ' :: (n ++ [' '])) ++ '=' :: [' ']
      = (w ++ x :: (b.identifier ++ g)) ++ '=' :: g' := by
    refine (List.append_left_inj ('\x7b' :: r)).1 ?_
    rw [hopening] at ht
    simpa using ht
  obtain ⟨h₂, -, -⟩ := append_cons_inj_of_class (p := isAsciiBlank) h₁ rfl rfl (by simp; rfl) hg'
  obtain ⟨i, y, rfl, hy⟩ := hlast hn
  obtain ⟨i', y', hi', hy'⟩ := hlast hname
  rw [hi'] at h₂ ⊢
  have h₃ : (a ++ ' ' :: i) ++ y :: [' '] = (w ++ x :: i') ++ y' :: g := by simpa using h₂
  obtain ⟨h₄, rfl, -⟩ := append_cons_inj_of_class (p := isAsciiBlank) h₃ hy hy' (by simp; rfl) hg
  have h₅ : a ++ ' ' :: (i ++ [y]) = w ++ x :: (i' ++ [y]) := by
    simpa using congrArg (· ++ [y]) h₄
  refine ((append_cons_inj_of_class (p := Token.isNameChar) h₅ rfl ?_ ?_ ?_).2.2).symm
  · exact isNameChar_of_isAsciiBlank hx
  · exact fun c hc => isNameChar_of_mem hn hc
  · exact fun c hc => isNameChar_of_mem hname (hi' ▸ hc)

end BindingStart

/-! ### The first literal -/

theorem prefix_of_dropTrailing? {w t u : Text} (h : dropTrailing? w t = some u) : u <+: t := by
  rw [dropTrailing?] at h
  split at h
  · rw [← Option.some.inj h]
    exact List.take_prefix _ _
  · cases h

theorem prefix_dropTrailing (w t : Text) : dropTrailing w t <+: t := by
  rw [dropTrailing]
  cases h : dropTrailing? w t with
  | none => exact List.prefix_rfl
  | some u => exact prefix_of_dropTrailing? h

theorem prefix_trimEnd (t : Text) : trimEnd t <+: t := by
  obtain ⟨b, hb, -⟩ := exists_eq_trimEnd_blanks t
  exact ⟨b, hb.symm⟩

/-- The lines of a literal that is never closed. -/
def openLines (opening : Text) : Text :=
  match lines opening with
  | [] => []
  | first :: rest => first ++ (rest.takeWhile fun l => !endsOpenLiteral (trimStart l)).flatten

/-- A text without the blanks at its end and the semicolon in front of them. -/
def withoutSemicolon (t : Text) : Text :=
  match dropTrailing? [';'] (trimEnd t) with
  | some r => trimEnd r
  | none => trimEnd t

theorem openLiteral_eq (opening : Text) :
    openLiteral opening = (withoutSemicolon (openLines opening),
      dropTrailing ['\x7d'] ((withoutSemicolon (openLines opening)).drop 1)) := rfl

theorem prefix_openLines (t : Text) : openLines t <+: t := by
  have ht := flatten_lines t
  rw [openLines]
  cases hl : lines t with
  | nil => exact List.nil_prefix
  | cons first rest =>
    rw [hl, List.flatten_cons] at ht
    conv_rhs => rw [← ht]
    rw [List.prefix_append_right_inj]
    obtain ⟨u, hu⟩ := List.takeWhile_prefix (l := rest) fun l => !endsOpenLiteral (trimStart l)
    exact ⟨u.flatten, by rw [← List.flatten_append, hu]⟩

theorem prefix_withoutSemicolon (t : Text) : withoutSemicolon t <+: t := by
  rw [withoutSemicolon]
  split
  · rename_i u hu
    exact ((prefix_trimEnd u).trans (prefix_of_dropTrailing? hu)).trans (prefix_trimEnd t)
  · exact prefix_trimEnd t

/-- The body of a literal that is never closed begins behind its brace. -/
theorem openLiteral_prefix (t : Text) : (openLiteral t).2 <+: t.drop 1 := by
  rw [openLiteral_eq]
  have hregion := (prefix_withoutSemicolon (openLines t)).trans (prefix_openLines t)
  exact (prefix_dropTrailing _ _).trans (hregion.drop 1)

/-- What stands between the braces of a literal begins behind the opening brace. -/
theorem literalAt_prefix (o : List Mark) : (literalAt o).2.1 <+: (chars o).drop 1 := by
  rw [literalAt]
  split
  · split
    · exact List.IsPrefix.drop (List.take_prefix _ _) 1
    · exact openLiteral_prefix _
  · exact openLiteral_prefix _

/-- **The literal behind a head**, and how many characters there are up to its end. -/
theorem boundLiteral?_eq {whole w o : Text} {b : BindingStart} (hb : BindingStart.parse? (w ++ o) = some b)
    (ho : b.opening = o) (s : State) (offset : Nat) :
    boundLiteral? whole offset (marksFrom s (w ++ o))
      = let x := literalAt (marksFrom (s.run w) o)
        some (⟨b.keyword, b.identifier, b.exported,
            ⟨offset, offset + size w + size x.1
              + if (o.drop x.1.length).head? = some ';' then 1 else 0⟩,
            ⟨offset + size w, offset + size w + size x.1⟩, x.1, x.2.1,
            Position.ofOffset whole offset, x.2.2⟩, w.length + x.1.length) := by
  obtain ⟨u, hu, hw⟩ := exists_marksFrom_append s w o
  have hlen : (w ++ o).length - o.length = w.length := by simp
  have hul : u.length = w.length := by rw [← hw, chars, List.length_map]
  rw [boundLiteral?, chars_marksFrom, hb, Option.bind_eq_bind, Option.bind_some]
  dsimp only
  rw [ho, hlen, List.take_left, hu, ← hul, List.drop_left]
  rfl

/-- A binding starts in code outside all brackets, and its first character leaves the scan there. -/
theorem State.step_of_mayStartBinding {s : State} {before next : Option Char} {c : Char}
    (h : mayStartBinding before ⟨c, s.layer c next, s.depth⟩ = true) :
    s.layer c next = .code ∧ s.stack = [] ∧ s.step c = .start ∧ c.utf8Size = 1 := by
  simp only [mayStartBinding, Mark.isTopLevel, Mark.isCode, Bool.and_eq_true, Bool.or_eq_true,
    decide_eq_true_eq] at h
  obtain ⟨⟨hc, hl, hd⟩, -⟩ := h
  obtain ⟨mode, stack⟩ := s
  obtain rfl : stack = [] := List.length_eq_zero_iff.1 hd
  rcases hc with ((rfl | rfl) | rfl) | rfl <;> cases mode <;> simp_all [layer] <;> decide

/-- The marks from the first head on begin where a binding may start. -/
theorem exists_scan_of_firstHead {t : Text} (h : firstHead none (marks t) ≠ []) :
    ∃ a c u before, t = a ++ c :: u ∧ firstHead none (marks t) = marksFrom (endState a) (c :: u)
      ∧ mayStartBinding before ⟨c, (endState a).layer c u.head?, (endState a).depth⟩ = true
      ∧ (BindingStart.parse? (c :: u)).isSome = true := by
  obtain ⟨q, hq⟩ := firstHead_suffix none (marks t)
  obtain ⟨before, hs⟩ := startsBinding_firstHead h
  obtain ⟨m, ms, hm⟩ := List.exists_cons_of_ne_nil h
  rw [hm] at hq hs
  have ht : t = chars q ++ m.char :: chars ms := by
    have := congrArg chars hq
    rw [chars_append, chars_marks] at this
    exact this.symm
  obtain ⟨q', hlen, hmarks⟩ := marks_append_cons (chars q) m.char (chars ms)
  rw [← ht, ← hq] at hmarks
  obtain ⟨-, hrest⟩ := List.append_inj hmarks (by rw [hlen, chars, List.length_map])
  rw [startsBinding, Bool.and_eq_true] at hs
  exact ⟨chars q, m.char, chars ms, before, ht, hm.trans hrest, (List.cons.inj hrest).1 ▸ hs.1, hs.2⟩

/-- **The first head** is wordy code outside all brackets, up to its brace. -/
theorem exists_head_of_firstHead {t : Text} (h : firstHead none (marks t) ≠ []) :
    ∃ a w o b, t = a ++ (w ++ '\x7b' :: o) ∧ (∀ c ∈ w, isWordy c = true)
      ∧ BindingStart.parse? (w ++ '\x7b' :: o) = some b ∧ b.opening = '\x7b' :: o
      ∧ (endState a).run w = .start
      ∧ firstHead none (marks t) = marksFrom (endState a) (w ++ '\x7b' :: o)
      ∧ firstHead none (marks t) = codeMarks 0 w ++ marksFrom .start ('\x7b' :: o) := by
  obtain ⟨a, c, u, before, ht, hu, hmay, hparse⟩ := exists_scan_of_firstHead h
  obtain ⟨hlayer, hstack, hstep, -⟩ := State.step_of_mayStartBinding hmay
  obtain ⟨b, hb⟩ := Option.isSome_iff_exists.1 hparse
  obtain ⟨w, hw, hne, hwordy⟩ := BindingStart.exists_wordy_of_parse? hb
  obtain ⟨o, ho⟩ := List.head?_eq_some_iff.1 (BindingStart.parse?_eq_some hb).2.1
  obtain ⟨d, v, rfl⟩ := List.exists_cons_of_ne_nil hne
  rw [ho, List.cons_append, List.cons.injEq] at hw
  obtain ⟨rfl, rfl⟩ := hw
  have hplain : ∀ x ∈ v, isPlain x = true := fun x hx =>
    isPlain_of_isWordy (hwordy x (List.mem_cons_of_mem c hx))
  have hscan := Scans.plain hplain []
  refine ⟨a, c :: v, o, b, ht, hwordy, hb, ho, ?_, hu, ?_⟩
  · rw [State.run_cons, hstep]
    exact hscan.run
  · have hdepth : (endState a).depth = 0 := by rw [State.depth, hstack]; rfl
    rw [hu, marksFrom, hlayer, hdepth, hstep]
    exact congrArg _ (hscan.marks ('\x7b' :: o))

/-- **In front of its brace** a head is wordy code. -/
theorem wordy_of_firstHead {t : Text} {w r : List Mark} (h : firstHead none (marks t) = w ++ r)
    (hw : '\x7b' ∉ chars w) : ∀ m ∈ w, m.isCode = true ∧ isWordy m.char = true := by
  by_cases hne : firstHead none (marks t) = []
  · rw [hne] at h
    rw [(List.append_eq_nil_iff.1 h.symm).1]
    exact fun m hm => absurd hm List.not_mem_nil
  obtain ⟨a, v, o, b, -, hwordy, -, -, -, -, hmarks⟩ := exists_head_of_firstHead hne
  have hmem : ∀ m ∈ codeMarks 0 v, m.isCode = true ∧ isWordy m.char = true := by
    intro m hm
    obtain ⟨x, hx, rfl⟩ := List.mem_map.1 hm
    exact ⟨rfl, hwordy x hx⟩
  rcases List.append_eq_append_iff.1 (h.symm.trans hmarks) with ⟨z, hz, -⟩ | ⟨z, rfl, hz⟩
  · exact fun m hm => hmem m (hz ▸ List.mem_append_left z hm)
  · -- a longer part holds the brace
    cases z with
    | nil => simpa using hmem
    | cons m z =>
      have hchar : '\x7b' = m.char := congrArg Mark.char (List.cons.inj hz).1
      exact absurd (by simp [chars, ← hchar]) hw

/-- **Where the body of the first literal stands**: behind a brace in code outside all brackets. -/
theorem exists_eq_of_firstLiteral? {t : Text} {l : ObjectLiteral} (h : firstLiteral? t = some l) :
    ∃ a r, t = a ++ '\x7b' :: r ∧ endState a = .start ∧ l.body <+: r
      ∧ (l.closing = .balanced → bodyAt? (marksFrom .start ('\x7b' :: r)) = some l.body) := by
  obtain ⟨q, hq, hl⟩ := firstLiteral?_eq t
  rw [h] at hl
  obtain ⟨⟨l', n⟩, hb, rfl⟩ := Option.map_eq_some_iff.1 hl.symm
  have hne : firstHead none (marks t) ≠ [] := by
    intro he
    rw [he] at hb
    cases hb
  obtain ⟨a, w, o, b, rfl, -, hp, ho, hrun, hu, -⟩ := exists_head_of_firstHead hne
  rw [hu, boundLiteral?_eq hp ho, hrun] at hb
  obtain ⟨rfl, -⟩ := Prod.mk.inj (Option.some.inj hb)
  refine ⟨a ++ w, o, (List.append_assoc _ _ _).symm, by rw [endState_append, hrun], ?_, fun hbal => ?_⟩
  · simpa using literalAt_prefix (marksFrom .start ('\x7b' :: o))
  · rw [bodyAt?_eq, if_pos hbal]

end ElementModules.Script
