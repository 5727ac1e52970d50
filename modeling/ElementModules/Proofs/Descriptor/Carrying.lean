import ElementModules.Proofs.Descriptor.Converting
import ElementModules.Proofs.Descriptor.Frame

/-!
# What a conversion carries over

A conversion carries over the statements of a module that `survivors` tells, whatever the module holds:
each as its text without the blanks around it, in their order, imports in front of the others and
these on their side of the binding. In a balanced module with a closed first literal they are
statements of the converted module, beside those of the frame (`convert?_carries`).

Not everything that is no part of the binding survives: a comment behind the binding is dropped as
long as nothing else has been read, and so is what shares a segment with the binding
(`convert?_drops_statements`).

## Main results

* `map_trimmed_statements_listing`: the statements of a listing.
* `convert?_carries`: the statements of a converted module.
-/

namespace ElementModules.Descriptor

open Text Script

/-! ### Trimmed statements -/

/-- **The statements of a listing** are its entries, without blanks around them. -/
theorem map_trimmed_statements_listing {ps : List Text} (h : ∀ p ∈ ps, p = [] ∨ IsEntry p) :
    (statements (listing ps)).map Segment.trimmed = (ps.filter (· ≠ [])).map trim := by
  have htrimmed : Segment.trimmed = (fun x : SegmentKind × Text => trim x.2) ∘ Segment.content := rfl
  rw [htrimmed, ← List.map_map, map_content_statements, statementContents_listing h, List.map_map]
  refine List.map_congr_left fun p _ => ?_
  exact trim_append_newline p

namespace Frame

theorem filter_block (ps : List Text) : (block ps).filter (· ≠ []) = ps.filter (· ≠ []) := by
  rw [block]
  split
  · simp_all
  · simp

/-- An empty entry is no statement. -/
theorem filter_empty (ps qs : List Text) :
    (ps ++ [] :: qs).filter (· ≠ []) = (ps ++ qs).filter (· ≠ []) := by
  rw [List.filter_append, List.filter_append, List.filter_cons_of_neg (by simp)]

/-- The statements of the frame in front of the kept ones. -/
def opening (f : Frame) : List Text := [f.headerComment, registryImport f.registry]

/-- The statements of the frame behind the kept ones. -/
def ending (f : Frame) : List Text := f.aliasLines ++ [f.defaultLine, f.callLine, f.logLine]

theorem filter_entriesAhead (f : Frame) (imports leading : List Text) :
    (f.entriesAhead imports leading).filter (· ≠ [])
      = (f.opening ++ imports ++ leading).filter (· ≠ []) := by
  have h : f.entriesAhead imports leading = f.opening ++ imports ++ [] :: block leading := by
    simp [entriesAhead, opening]
  rw [h, filter_empty, List.filter_append, filter_block, ← List.filter_append]

theorem filter_entriesBehind (f : Frame) (trailing : List Text) :
    (f.entriesBehind trailing ++ [f.callLine, f.logLine]).filter (· ≠ [])
      = (trailing ++ f.ending).filter (· ≠ []) := by
  have h : f.entriesBehind trailing ++ [f.callLine, f.logLine]
      = [] ++ [] :: (block trailing ++ (f.aliasLines ++ [f.defaultLine] ++ [] :: [f.callLine, f.logLine])) := by
    simp [entriesBehind]
  have hending : f.ending = f.aliasLines ++ [f.defaultLine] ++ [f.callLine, f.logLine] := by
    simp [ending]
  rw [h, filter_empty, List.nil_append, List.filter_append, filter_block, filter_empty, hending,
    ← List.filter_append]

theorem trim_of_head {p : Text} (h : IsEntry p) (hs : ∀ c ∈ p.head?, isBlank c = false) :
    trim p = p :=
  trim_eq_self hs h.last

/-- Texts that are not empty and have no blanks around them. -/
def AreTrimmed (ps : List Text) : Prop := ∀ p ∈ ps, p ≠ [] ∧ trim p = p

theorem map_trim_of_areTrimmed {ps : List Text} (h : AreTrimmed ps) :
    (ps.filter (· ≠ [])).map trim = ps := by
  rw [List.filter_eq_self.2 fun p hp => by simpa using (h p hp).1]
  exact (List.map_congr_left fun p hp => (h p hp).2).trans (List.map_id ps)

section Trimmed

variable {f : Frame}

theorem areTrimmed_opening (hr : isName f.registry.receiver = true) : AreTrimmed f.opening := by
  intro p hp
  simp only [opening, List.mem_cons, List.not_mem_nil, or_false] at hp
  rcases hp with rfl | rfl
  · have he := f.isEntry_headerComment.1
    refine ⟨he.ne_nil, trim_of_head he fun c hc => ?_⟩
    obtain rfl : '/' = c := Option.some.inj hc
    rfl
  · have he := (isLine_registryImport hr).isEntry
    refine ⟨he.ne_nil, trim_of_head he fun c hc => ?_⟩
    obtain rfl : 'i' = c := Option.some.inj hc
    rfl

variable (hid : isName f.identifier = true)
include hid

theorem areTrimmed_bindingStatement {body : Text} (hend : endState body = .start) (h : IsBody body) :
    AreTrimmed [f.bindingStatement body] := by
  intro p hp
  obtain rfl := List.mem_singleton.1 hp
  have he := isEntry_bindingStatement hid hend h
  refine ⟨he.ne_nil, trim_of_head he fun c hc => ?_⟩
  rw [bindingStatement, bindingHead, bindingWords] at hc
  split at hc
  · obtain rfl : 'e' = c := Option.some.inj hc
    rfl
  · obtain rfl : 'c' = c := Option.some.inj hc
    rfl

theorem areTrimmed_ending (hr : isName f.registry.receiver = true) : AreTrimmed f.ending := by
  have hline : ∀ {w : Text}, IsLine w → (∀ c ∈ w.head?, isBlank c = false) → w ≠ [] ∧ trim w = w :=
    fun h hs => ⟨h.isEntry.ne_nil, trim_of_head h.isEntry hs⟩
  intro p hp
  simp only [ending, List.mem_append, List.mem_cons, List.not_mem_nil, or_false] at hp
  rcases hp with hp | rfl | rfl | rfl
  · refine hline (isLine_aliasLines hid p hp) fun c hc => ?_
    rw [aliasLines] at hp
    split at hp
    · cases hp
    · rw [List.mem_singleton.1 hp] at hc
      obtain rfl : 'e' = c := Option.some.inj hc
      rfl
  · refine hline (isLine_defaultLine hid) fun c hc => ?_
    obtain rfl : 'e' = c := Option.some.inj hc
    rfl
  · refine hline (isLine_registrationCall hr hid) ?_
    rw [callLine, registrationCall, List.append_assoc, List.append_assoc]
    exact head?_of_isName hr _
  · refine hline (isLine_diagnosticLine _ _ _) fun c hc => ?_
    obtain rfl : 'c' = c := Option.some.inj hc
    rfl

end Trimmed

end Frame

/-! ### The statements that are carried over -/

theorem map_trim_carried {c : Context} {t : Text} {ps : List Text} {ss : List Segment}
    (h : Laid ps ss) (hs : ∀ s ∈ ss, s ∈ carriedOver c t) :
    (ps.filter (· ≠ [])).map trim = ss.map Segment.trimmed :=
  h.map_trim fun s hm => trimmed_ne_nil (mem_carriedOver (hs s hm)).1 (mem_carriedOver (hs s hm)).2.1

/-- A segment is carried over, or it is not kept anywhere, or it stands in the opening. -/
theorem carriedOver_or (c : Context) {t : Text} {s : Segment} (h : s ∈ segments t) :
    s ∈ carriedOver c t
      ∨ isCarried c.registry.receiver ((firstLiteral? t).map ObjectLiteral.statement) s = false
      ∨ ∃ pre post, segments t = pre ++ s :: post
        ∧ ∀ x ∈ pre ++ [s], isOpening ((firstLiteral? t).map ObjectLiteral.statement) x = true := by
  generalize hst : (firstLiteral? t).map ObjectLiteral.statement = statement
  have hsplit := List.takeWhile_append_dropWhile (p := isOpening statement) (l := segments t)
  rw [← hsplit, List.mem_append] at h
  rcases h with hs | hs
  · obtain ⟨pre, post, hp⟩ := List.append_of_mem hs
    refine .inr (.inr ⟨pre, post ++ (segments t).dropWhile (isOpening statement), ?_, fun x hx => ?_⟩)
    · rw [← List.cons_append, ← List.append_assoc, ← hp, hsplit]
    · refine List.mem_takeWhile_imp (l := segments t) ?_
      rw [hp]
      simp only [List.mem_append, List.mem_cons, List.not_mem_nil, or_false] at hx ⊢
      exact hx.imp id .inl
  · cases hc : isCarried c.registry.receiver statement s with
    | true => exact .inl (by rw [carriedOver, hst]; exact List.mem_filter.2 ⟨hs, hc⟩)
    | false => exact .inr (.inl rfl)

namespace Writes

variable {c : Context} {t out : Text} {f : Frame} {body : Text} {imports leading trailing : List Text}
  (h : Writes c t out f body imports leading trailing)
include h

/-- The statements of a converted module, whatever the body of the binding holds. -/
theorem map_trimmed_statements_eq (hb : isBalanced t = true) (hq : closesQuotes t = true)
    (hr : Script.isName c.registry.receiver = true) :
    (statements out).map Segment.trimmed = f.opening
      ++ ((carriedOver c t).filter isImport).map Segment.trimmed
      ++ ((carriedOver c t).filter fun s => !isImport s && standsAhead t s).map Segment.trimmed
      ++ (statements (f.bindingStatement body ++ ['\n'])).map Segment.trimmed
      ++ ((carriedOver c t).filter fun s => !isImport s && !standsAhead t s).map Segment.trimmed
      ++ f.ending := by
  have hreceiver : Script.isName f.registry.receiver = true := h.registry ▸ hr
  have hahead := h.isEntry_ahead hb hq hr
  have hbehind : ∀ p ∈ f.entriesBehind trailing ++ [f.callLine, f.logLine], p = [] ∨ IsEntry p :=
    Frame.isEntry_registered h.isName hreceiver (h.isEntry_behind hb hq)
  have hclosedAhead := closedBy_listing (isBalanced_of_entries hahead) (by simp [Frame.entriesAhead])
  have hclosed : ClosedBy '\n' (f.bindingStatement body ++ ['\n']) := by
    refine closedBy_newline ?_
    rw [isBalanced, Frame.endState_bindingStatement h.isName (h.endState_body hq)]
    rfl
  have hsplit : ∀ {a : Text}, ClosedBy '\n' a → ∀ b, (statements (a ++ b)).map Segment.trimmed
      = (statements a).map Segment.trimmed ++ (statements b).map Segment.trimmed := by
    intro a ha b
    have htrimmed : ∀ u, (statements u).map Segment.trimmed
        = readStatements (fun x => trim x.2) u := fun u => by
      rw [readStatements, ← map_content_statements, List.map_map]
      rfl
    rw [htrimmed, htrimmed, htrimmed]
    exact (isReading_readStatements fun _ p => trim_append_newline p).append (.inl ha)
  rw [h.out_eq, listing_append, listing_cons, hsplit hclosedAhead, hsplit hclosed,
    map_trimmed_statements_listing hahead, map_trimmed_statements_listing hbehind,
    Frame.filter_entriesAhead, Frame.filter_entriesBehind]
  simp only [List.filter_append, List.map_append, List.append_assoc]
  rw [Frame.map_trim_of_areTrimmed (Frame.areTrimmed_opening hreceiver),
    map_trim_carried h.imports fun _ => List.mem_of_mem_filter,
    map_trim_carried h.leading fun _ => List.mem_of_mem_filter,
    map_trim_carried h.trailing fun _ => List.mem_of_mem_filter,
    Frame.map_trim_of_areTrimmed (Frame.areTrimmed_ending h.isName hreceiver)]

/-- A body that can stand between braces makes one statement of the binding. -/
theorem map_trimmed_bindingStatement (hq : closesQuotes t = true) (hbody : IsBody body) :
    (statements (f.bindingStatement body ++ ['\n'])).map Segment.trimmed
      = [f.bindingStatement body] := by
  have hentry := Frame.isEntry_bindingStatement h.isName (h.endState_body hq) hbody
  have hone : f.bindingStatement body ++ ['\n'] = listing [f.bindingStatement body] := by simp
  rw [hone, map_trimmed_statements_listing (by simp [hentry])]
  exact Frame.map_trim_of_areTrimmed
    (Frame.areTrimmed_bindingStatement h.isName (h.endState_body hq) hbody)

/-- **The statements of a converted module.** -/
theorem map_trimmed_statements (hb : isBalanced t = true) (hq : closesQuotes t = true)
    (hr : Script.isName c.registry.receiver = true) {l : ObjectLiteral}
    (hl : firstLiteral? t = some l) (hc : l.closing = .balanced) :
    (statements out).map Segment.trimmed = f.opening
      ++ ((carriedOver c t).filter isImport).map Segment.trimmed
      ++ ((carriedOver c t).filter fun s => !isImport s && standsAhead t s).map Segment.trimmed
      ++ [f.bindingStatement body]
      ++ ((carriedOver c t).filter fun s => !isImport s && !standsAhead t s).map Segment.trimmed
      ++ f.ending := by
  rw [h.map_trimmed_statements_eq hb hq hr, h.map_trimmed_bindingStatement hq (h.isBody hq l hl hc)]

end Writes

/-- **What a conversion carries over**: the statements that `carriedOver` tells, each without the
blanks around it, in their order and on their side of the binding, and no others. In a balanced module
with a closed first literal, in which quoted strings are closed, they are statements of the converted
module. -/
theorem convert?_carries {c : Context} {t out : Text} {k : Conversion}
    (h : convert? c t = some (out, k)) :
    ∃ f body imports leading trailing, Writes c t out f body imports leading trailing
      ∧ (imports.filter (· ≠ [])).map trim
        = ((carriedOver c t).filter isImport).map Segment.trimmed
      ∧ (leading.filter (· ≠ [])).map trim
        = ((carriedOver c t).filter fun s => !isImport s && standsAhead t s).map Segment.trimmed
      ∧ (trailing.filter (· ≠ [])).map trim
        = ((carriedOver c t).filter fun s => !isImport s && !standsAhead t s).map Segment.trimmed
      ∧ (∀ s ∈ segments t, s ∈ carriedOver c t
        ∨ isCarried c.registry.receiver ((firstLiteral? t).map ObjectLiteral.statement) s = false
        ∨ ∃ pre post, segments t = pre ++ s :: post
          ∧ ∀ x ∈ pre ++ [s], isOpening ((firstLiteral? t).map ObjectLiteral.statement) x = true)
      ∧ (isName c.registry.receiver = true → isBalanced t = true → closesQuotes t = true →
        ∀ l ∈ firstLiteral? t, l.closing = .balanced →
          (statements out).map Segment.trimmed = f.opening
            ++ ((carriedOver c t).filter isImport).map Segment.trimmed
            ++ ((carriedOver c t).filter fun s => !isImport s && standsAhead t s).map Segment.trimmed
            ++ [f.bindingStatement body]
            ++ ((carriedOver c t).filter fun s => !isImport s && !standsAhead t s).map
              Segment.trimmed
            ++ f.ending) := by
  obtain ⟨f, body, imports, leading, trailing, hw⟩ := exists_writes h
  exact ⟨f, body, imports, leading, trailing, hw,
    map_trim_carried hw.imports fun _ => List.mem_of_mem_filter,
    map_trim_carried hw.leading fun _ => List.mem_of_mem_filter,
    map_trim_carried hw.trailing fun _ => List.mem_of_mem_filter,
    fun _ => carriedOver_or c,
    fun hr hb hq _ hl hc => hw.map_trimmed_statements hb hq hr hl hc⟩

theorem convert?_carries_sample : ∃ f : Frame, ∃ body : Text, f.identifier = "x"
    ∧ (statements framedModule).map Segment.trimmed
      = f.opening ++ [("foo();" : Text)] ++ [f.bindingStatement body] ++ f.ending := by
  obtain ⟨l, hl, hc, hx⟩ := exists_looseLiteral
  obtain ⟨f, body, imports, leading, trailing, hw, -, -, -, -, hout⟩ :=
    convert?_carries convert?_looseModule
  have hout := hout (by decide) (by decide) (by decide) l hl hc
  have himports : ((carriedOver sampleContext looseModule).filter isImport).map Segment.trimmed
      = [] := by decide
  have hahead : ((carriedOver sampleContext looseModule).filter fun s =>
      !isImport s && standsAhead looseModule s).map Segment.trimmed = [("foo();" : Text)] := by
    decide
  have hbehind : ((carriedOver sampleContext looseModule).filter fun s =>
      !isImport s && !standsAhead looseModule s).map Segment.trimmed = [] := by decide
  rw [himports, hahead, hbehind, List.append_nil, List.append_nil] at hout
  exact ⟨f, body, (hw.identifier l hl).trans hx, hout⟩

/-- A module with a function in front of the binding on its line, and a comment behind it. -/
def crowdedModule : Text :=
  "function f() \x7b\x7d const x = \x7b\x7d;\n// note\nfoo();\n"

/-- The module in canonical form. -/
def strippedModule : Text := ofLines
  ["/**", " * X", " * Library: a | Category: b", " */", "import \x7b r \x7d from 'r.js';", "",
    "const x = \x7b", "  type: 'x',", "  library: 'a',", "  category: 'b',", "  label: 'X',", "\x7d;", "",
    "foo();", "", "export const descriptor = x;", "export default x;", "", "r.register(x);",
    "console.log('✔ [a] b/x');"]

/-- The function that shares a segment with the binding is dropped, and so is the comment behind the
binding. -/
theorem convert?_drops_statements :
    convert? sampleContext crowdedModule = some (strippedModule, .converted)
      ∧ isBalanced crowdedModule = true
      ∧ ((firstLiteral? crowdedModule).any fun l => l.closing = .balanced) = true
      ∧ (segments crowdedModule).map Segment.trimmed
        = [("function f() \x7b\x7d const x = \x7b\x7d;" : Text), "// note", "foo();"]
      ∧ (segments crowdedModule).map Segment.kind = [.other, .comment, .other]
      ∧ contains "function f()" strippedModule = false ∧ contains "// note" strippedModule = false := by
  refine ⟨?_, ?_, ?_, ?_, ?_, ?_, ?_⟩ <;> decide +kernel

end ElementModules.Descriptor
