import ElementModules.Proofs.Descriptor.Drafting
import ElementModules.Proofs.Descriptor.Rendering
import ElementModules.Proofs.Script.Fields

/-!
# Reading back the identity fields

The identity fields that a frame writes are the first fields of the body (`gists_inside`). Their
values are the names of the frame, as far as they can be read: a value with an escape is no plain
string, and a repair then takes the name from its context (`unquoted?_quote`). Either way the
canonical statements for the literal are those of the frame (`canonicalStatements_frame`).

## Main results

* `gists_identityFields`, `gists_inside`: the fields that a frame writes.
* `canonicalStatements_frame`: the canonical statements of a repair are those of the frame.
-/

namespace ElementModules.Descriptor

open Text Script

/-- What an identity field says. -/
def identityGist (v : Text × Text) : Option Text × FieldKind × Text × Option Text :=
  (some v.1, .property, v.1 ++ ':' :: ' ' :: quote v.2, some (quote v.2))

theorem isName_identityKey {key : Text} (h : key ∈ identityFieldKeys) : isName key = true := by
  have hkeys : ∀ key ∈ identityFieldKeys, isName key = true := by decide
  exact hkeys key h

theorem getLast?_append_quote (w value : Text) : (w ++ quote value).getLast? = some '\'' := by
  rw [quote, ← List.append_assoc, List.getLast?_concat]

theorem trim_quote (value : Text) : trim (' ' :: quote value) = quote value := by
  have hblank : ∀ c ∈ [' '], isBlank c = true := by simp only [List.mem_singleton, forall_eq]; rfl
  have hlast : (quote value).getLast? = some '\'' := getLast?_append_quote [] value
  refine (trim_blanks_append hblank (quote value)).trans (trim_eq_self (fun c hc => ?_) fun c hc => ?_)
  · obtain rfl : '\'' = c := Option.some.inj hc
    rfl
  · rw [hlast] at hc
    obtain rfl := Option.some.inj hc
    rfl

/-- The key and the value of an identity field are read off its content. -/
theorem readField_identity {key : Text} (h : key ∈ identityFieldKeys) (value : Text) :
    readField (key ++ ':' :: ' ' :: quote value) = (some key, .property, some (quote value)) := by
  have hname := isName_identityKey h
  have hchars : ∀ c ∈ key, Token.isNameChar c = true := fun _ => isNameChar_of_mem hname
  have hspread : startsWith (key ++ ':' :: ' ' :: quote value) "..." = false := by
    obtain ⟨c, k, rfl⟩ := List.exists_cons_of_ne_nil (ne_nil_of_isName hname)
    have hc : '.' ≠ c := (ne_of_class (hchars c List.mem_cons_self) rfl).symm
    have hdots : ("..." : Text) = ['.', '.', '.'] := by decide
    rw [startsWith, hdots, List.cons_append, List.isPrefixOf, beq_false_of_ne hc, Bool.false_and]
  have hmethod : modifiedMethod? (key ++ ':' :: ' ' :: quote value) = none := by
    have hmodifiers : ∀ modifier ∈ (["async", "get", "set"] : List Text),
        Token.word? modifier (key ++ ':' :: ' ' :: quote value) = none := by
      intro modifier hm
      have hwords : ∀ modifier ∈ (["async", "get", "set"] : List Text),
          modifier.all Token.isNameChar = true ∧ modifier ∉ identityFieldKeys := by decide
      obtain ⟨hw, hne⟩ := hwords modifier hm
      exact Token.word?_append_of_ne (all_isNameChar modifier hw) hchars (fun he => hne (he ▸ h)) rfl
    rw [modifiedMethod?, List.findSome?_eq_none_iff]
    intro modifier hm
    rw [hmodifiers modifier hm]
    rfl
  rw [readField, hspread, hmethod, Token.name?_append hname rfl]
  show (some key, FieldKind.property, some (trim (' ' :: quote value))) = _
  rw [trim_quote]

section Field

variable {key : Text} (h : key ∈ identityFieldKeys) (value : Text)
include h

theorem marks_identityField : marks (identityField key value)
    = codeMarks 0 ['\n', ' ', ' '] ++ (codeMarks 0 (key ++ [':', ' ']) ++ literalMarks 0 (quote value)) := by
  rw [(scans_identityField (isPlain_identityKey h) value []).marks_eq]
  rfl

/-- An identity field holds no comma between fields. -/
theorem isCommaFree_identityField : IsCommaFree (identityField key value) := by
  have hkeys : ∀ key ∈ identityFieldKeys, ',' ∉ '\n' :: ' ' :: ' ' :: (key ++ [':', ' ']) := by
    decide
  intro m hm
  rw [(scans_identityField (isPlain_identityKey h) value []).marks_eq, List.mem_append] at hm
  rcases hm with hm | hm
  · obtain ⟨c, hc, rfl⟩ := List.mem_map.1 hm
    have hne : c ≠ ',' := fun he => hkeys key h (he ▸ hc)
    simp [isComma, hne]
  · obtain ⟨c, -, rfl⟩ := List.mem_map.1 hm
    simp [isComma, Mark.isTopLevel, Mark.isCode]

theorem endState_identityField : endState (identityField key value) = .start :=
  (scans_identityField (isPlain_identityKey h) value []).run

/-- **What an identity field says.** -/
theorem gistsOf_identityField :
    gistsOf (marks (identityField key value)) = [identityGist (key, value)] := by
  obtain ⟨c, k, hk⟩ := List.exists_cons_of_ne_nil (ne_nil_of_isName (isName_identityKey h))
  have hc := isNameChar_of_mem (isName_identityKey h) (hk ▸ List.mem_cons_self : c ∈ key)
  have hcontent : contentOf (marks (identityField key value))
      = codeMarks 0 (key ++ [':', ' ']) ++ literalMarks 0 (quote value) := by
    have hblanks : ∀ m ∈ codeMarks 0 ['\n', ' ', ' '],
        (isAsciiBlank m.char || m.layer = .comment) = true := by decide
    have hfirst : ¬ (isAsciiBlank c || decide (Layer.code = .comment)) = true := by
      simp [(isHeadChar_of_isNameChar hc).1]
    rw [marks_identityField h, contentOf, List.dropWhile_append_of_pos hblanks, hk]
    exact List.dropWhile_cons_of_neg hfirst
  have hblanks : ∀ x ∈ ['\n', ' ', ' '], isBlank x = true := List.all_eq_true.1 rfl
  have htrim : trim (identityField key value) = key ++ ':' :: ' ' :: quote value := by
    refine (trim_blanks_append hblanks (key ++ ':' :: ' ' :: quote value)).trans
      (trim_eq_self (fun x hx => ?_) fun x hx => ?_)
    · exact head?_of_isName (isName_identityKey h) _ x hx
    · have hsplit : key ++ ':' :: ' ' :: quote value = (key ++ [':', ' ']) ++ quote value := by simp
      rw [hsplit, getLast?_append_quote] at hx
      obtain rfl := Option.some.inj hx
      rfl
  have hblank : isBlankText (identityField key value) = false := by
    rw [isBlankText, List.all_eq_false]
    refine ⟨c, ?_, by rw [isBlank_of_isNameChar hc]; simp⟩
    rw [identityField, hk]
    simp
  obtain ⟨m, ms, hm⟩ : ∃ m ms, codeMarks 0 (key ++ [':', ' ']) ++ literalMarks 0 (quote value)
      = m :: ms := List.exists_cons_of_ne_nil (by simp [codeMarks])
  have hchars : chars (m :: ms) = key ++ ':' :: ' ' :: quote value := by
    rw [← hm, chars_append, chars_codeMarks, chars_literalMarks]
    simp
  rw [gistsOf, fieldsOf, chars_marks, hblank, if_neg (by simp), hcontent, hm]
  simp only [hchars, readField_identity h value, htrim]
  rfl

end Field

/-- **What the identity fields say**, in front of the other fields. -/
theorem gists_identityFields {values : List (Text × Text)}
    (h : ∀ v ∈ values, v.1 ∈ identityFieldKeys) (t : Text) :
    gists (identityFields values ++ t) = values.map identityGist ++ gists t := by
  induction values with
  | nil => rfl
  | cons v values ih =>
    have hv := h v List.mem_cons_self
    have htop : (endState (identityField v.1 v.2)).IsTopLevelAt ',' := by
      rw [endState_identityField hv]
      exact ⟨rfl, rfl⟩
    have hsplit : identityFields (v :: values) ++ t
        = identityField v.1 v.2 ++ ',' :: (identityFields values ++ t) := by
      simp [identityFields]
    rw [hsplit, gists_comma (isCommaFree_identityField hv v.2) htop, gistsOf_identityField hv,
      ih fun w hw => h w (List.mem_cons_of_mem v hw)]
    rfl

namespace Frame

theorem mem_identityFieldKeys (f : Frame) : ∀ v ∈ f.identityValues, v.1 ∈ identityFieldKeys := by
  intro v hv
  have hmap : f.identityValues.map Prod.fst = identityFieldKeys := rfl
  exact hmap ▸ List.mem_map_of_mem hv

/-- The fields between the braces of the binding. -/
theorem gists_inside (f : Frame) (body : Text) :
    gists (f.inside body) = f.identityValues.map identityGist ++ gists ('\n' :: body) :=
  gists_identityFields f.mem_identityFieldKeys _

end Frame

/-! ### Values -/

theorem escape_cases (t : Text) : '\\' ∈ escape t ∨ escape t = t := by
  induction t with
  | nil => exact .inr rfl
  | cons c t ih =>
    rw [escape_cons, escapeChar]
    split_ifs
    · exact .inl (by simp)
    · exact .inl (by simp)
    · exact .inl (by simp)
    · exact .inl (by simp)
    · exact ih.imp (List.mem_cons_of_mem c) (congrArg (c :: ·))

/-- A quoted text that is a plain string holds the text. -/
theorem eq_of_unquoted?_quote {value v : Text} (h : Field.unquoted? (quote value) = some v) :
    v = value := by
  have hinner : ((quote value).drop 1).dropLast = escape value := by
    rw [quote]
    exact List.dropLast_concat
  have hhead : (quote value).head? = some '\'' := rfl
  rw [Field.unquoted?, hhead] at h
  simp only [Option.bind_eq_bind, Option.bind_some, hinner] at h
  split at h
  · rename_i hcond
    simp only [Bool.and_eq_true, Bool.not_eq_true', List.contains_eq_mem, decide_eq_false_iff_not]
      at hcond
    rw [← Option.some.inj h]
    exact (escape_cases value).resolve_left hcond.1.2
  · cases h

/-- Under a key that occurs once nothing but its value is found. -/
theorem filter_of_nodup {values : List (Text × Text)} (hn : (values.map Prod.fst).Nodup)
    {v : Text × Text} (hv : v ∈ values) : values.filter (fun x => x.1 = v.1) = [v] := by
  induction values with
  | nil => cases hv
  | cons x values ih =>
    rw [List.map_cons, List.nodup_cons] at hn
    rcases List.mem_cons.1 hv with rfl | hv
    · have hnone : values.filter (fun x => x.1 = v.1) = [] := by
        rw [List.filter_eq_nil_iff]
        intro x hx he
        exact hn.1 (of_decide_eq_true he ▸ List.mem_map_of_mem hx)
      rw [List.filter_cons_of_pos (by simp), hnone]
    · have hne : x.1 ≠ v.1 := fun he => hn.1 (he ▸ List.mem_map_of_mem hv)
      rw [List.filter_cons_of_neg (by simpa using hne), ih hn.2 hv]

/-- Among the identity fields each key occurs once. -/
theorem Frame.filter_identityGists (f : Frame) {v : Text × Text} (hv : v ∈ f.identityValues) :
    (f.identityValues.map identityGist).filter (fun g => g.1 = some v.1) = [identityGist v] := by
  have hp : ((fun g : Option Text × FieldKind × Text × Option Text => decide (g.1 = some v.1))
      ∘ identityGist) = fun x : Text × Text => decide (x.1 = v.1) := by
    funext x
    simp [identityGist]
  have hkeys : (f.identityValues.map Prod.fst).Nodup := (by decide : identityFieldKeys.Nodup)
  rw [List.filter_map, hp, filter_of_nodup hkeys hv]
  rfl

/-- The first field under the key of an identity field is the one that the frame writes. -/
theorem Frame.find?_inside (f : Frame) {body : Text} {v : Text × Text} (hv : v ∈ f.identityValues) :
    (gists (f.inside body)).find? (fun g => g.1 = some v.1) = some (identityGist v) := by
  rw [f.gists_inside, List.find?_append, ← List.head?_filter, f.filter_identityGists hv]
  rfl

/-- What is looked up under the key of an identity field is its value, or nothing. -/
theorem Frame.stringField?_inside (f : Frame) {body : Text} {v : Text × Text}
    (hv : v ∈ f.identityValues) :
    stringField? (f.inside body) v.1 = Field.unquoted? (quote v.2) := by
  rw [stringField?_eq, f.find?_inside hv]
  rfl

section Canonical

variable {c : Context} {f : Frame} {body : Text} {l : ObjectLiteral} (hbody : l.body = f.inside body)
include hbody

/-- What is read under an identity key of a frame is what the frame writes. -/
theorem eq_of_stringField?_frame {x : Text × Text} (hx : x ∈ f.identityValues) {v : Text}
    (hv : l.stringField? x.1 = some v) : v = x.2 := by
  rw [ObjectLiteral.stringField?, hbody, f.stringField?_inside hx] at hv
  exact eq_of_unquoted?_quote hv

/-- The canonical statements for the literal of a frame are those of the frame if they name its
library and its category. -/
theorem canonicalStatements_eq_listing (hr : f.registry = c.registry)
    (hid : l.identifier = f.identifier)
    (hlibrary : (l.stringField? "library").getD c.library = f.library)
    (hcategory : (l.stringField? "category").getD c.category = f.category) :
    canonicalStatements c l = listing [f.callLine, f.logLine] := by
  have htype : ((l.stringField? "type").filter fun v => !isUnspecificType v).getD l.identifier
      = f.identifier := by
    rw [hid]
    cases hv : (l.stringField? "type").filter fun v => !isUnspecificType v with
    | none => rfl
    | some v =>
      exact eq_of_stringField?_frame hbody (x := ("type", f.identifier))
        (by simp [Frame.identityValues]) (Option.filter_eq_some_iff.1 hv).1
  rw [canonicalStatements_eq, diagnosticOf, hlibrary, hcategory, htype, hid, ← hr, listing_cons,
    listing_cons, listing_nil, List.append_nil]
  rfl

/-- **The canonical statements** for the literal of a frame are those of the frame. -/
theorem canonicalStatements_frame (hr : f.registry = c.registry) (hlib : f.library = c.library)
    (hcat : f.category = c.category) (hid : l.identifier = f.identifier) :
    canonicalStatements c l = listing [f.callLine, f.logLine] := by
  refine canonicalStatements_eq_listing hbody hr hid ?_ ?_
  · rw [← hlib]
    cases hv : l.stringField? "library" with
    | none => rfl
    | some v =>
      exact eq_of_stringField?_frame hbody (x := ("library", f.library))
        (by simp [Frame.identityValues]) hv
  · rw [← hcat]
    cases hv : l.stringField? "category" with
    | none => rfl
    | some v =>
      exact eq_of_stringField?_frame hbody (x := ("category", f.category))
        (by simp [Frame.identityValues]) hv

end Canonical

end ElementModules.Descriptor
