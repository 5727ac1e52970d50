import ElementModules.Config.Encoding
import ElementModules.Proofs.Json.ReadingBack
import ElementModules.Report.Encoding

/-!
# Configurations and reports survive JSON

A record is written as an object with its keys in order, and reading looks each key up. So a record is
read back as it was if all of its fields are (`Faithful`), and this goes from the texts at the leaves
up to whole configurations and reports.

The categories of a configuration are a map. Its entries are written in the order in which the
configuration lists them, and they are listed in that order again (`Keyed.settle_of_distinct`), so the
statement covers every order in which a map may be listed.

## Main results

* `Json.asRecord?_object`: reading the fields of a written record.
* `Config.faithful`, `RunReport.faithful`: writing and reading as JSON values.
* `Config.parse_toJson_and_parse?_toJson`: writing and reading as texts.
-/

namespace ElementModules

/-! ### Maps with distinct keys -/

namespace Keyed

variable {κ α : Type} [BEq κ] [LawfulBEq κ]

theorem put_of_not_mem {key : κ} {pairs : List (κ × α)} (h : key ∉ pairs.map Prod.fst) (value : α) :
    put key value pairs = pairs ++ [(key, value)] := by
  induction pairs with
  | nil => rfl
  | cons p pairs ih =>
    obtain ⟨k, v⟩ := p
    rw [List.map_cons, List.mem_cons, not_or] at h
    rw [put, if_neg (by simpa using Ne.symm h.1), ih h.2, List.cons_append]

/-- **Pairs with distinct keys** are settled. -/
theorem settle_of_distinct {pairs : List (κ × α)} (h : Distinct pairs) : settle pairs = pairs := by
  suffices hall : ∀ done : List (κ × α), Distinct (done ++ pairs) →
      pairs.foldl (fun done p => put p.1 p.2 done) done = done ++ pairs from hall [] h
  clear h
  induction pairs with
  | nil => simp
  | cons p pairs ih =>
    intro done hd
    have hp : p.1 ∉ done.map Prod.fst := by
      intro hm
      rw [Distinct, List.map_append, List.nodup_append] at hd
      exact hd.2.2 _ hm _ (by simp) rfl
    rw [List.foldl_cons, put_of_not_mem hp, ih _ (by simpa using hd)]
    simp

end Keyed

namespace Json

/-! ### Fields -/

/-- Values that are written without numbers, and read back as they were. -/
structure Faithful {α : Type} (write : α → Json) (read? : Json → Option α) : Prop where
  textual (a : α) : Textual (write a)
  read_write (a : α) : read? (write a) = some a

/-- **The fields of a record** are found again, if its keys are among the expected ones and in their
order. -/
theorem asRecord?_object {names : List Text} (hn : names.Nodup) {fields : List (Text × Json)}
    (h : (fields.map Prod.fst).Sublist names) :
    (object fields).asRecord? names = some fields := by
  have hknown : (fields.filter fun f => names.contains f.1) = fields :=
    List.filter_eq_self.2 fun f hf =>
      List.contains_iff_mem.2 (h.subset (List.mem_map_of_mem hf))
  rw [asRecord?, hknown, if_pos (hn.sublist h)]

namespace Faithful

variable {α : Type} {write : α → Json} {read? : Json → Option α}

theorem required (h : Faithful write read?) {fields : List (Text × Json)} {name : Text} {a : α}
    (hf : fields.lookup name = some (write a)) : required? fields name read? = some a := by
  rw [required?, hf, Option.bind_some, h.read_write]

theorem optional (h : Faithful write read?) {fields : List (Text × Json)} {name : Text} {a default : α}
    (hf : fields.lookup name = some (write a)) : optional? fields name read? default = some a := by
  rw [optional?, hf]
  exact h.read_write a

theorem text : Faithful .string asText? := ⟨.string, fun _ => rfl⟩

theorem bool : Faithful .bool asBool? := ⟨.bool, fun _ => rfl⟩

theorem path : Faithful (fun p : Path => .string p.text) Path.ofJson? :=
  ⟨fun p => .string p.text, fun _ => rfl⟩

theorem list (h : Faithful write read?) :
    Faithful (fun as : List α => .array (as.map write)) (asList? read?) where
  textual as := .array (List.forall_mem_map.2 fun a _ => h.textual a)
  read_write as := by
    rw [asList?]
    induction as with
    | nil => rfl
    | cons a as ih => simp [h.read_write, ih]

end Faithful

/-- A map is read back in the order in which it is written. -/
theorem asMap?_object {pairs : List (Text × Text)} (h : Keyed.Distinct pairs) :
    asMap? asText? (.object (pairs.map fun e => (e.1, .string e.2))) = some pairs := by
  have hread : (pairs.map fun e => (e.1, Json.string e.2)).mapM
      (fun f => (asText? f.2).map (f.1, ·)) = some pairs := by
    clear h
    induction pairs with
    | nil => rfl
    | cons e pairs ih =>
      rw [List.map_cons, List.mapM_cons, ih]
      rfl
  rw [asMap?, hread, Option.map_some, Keyed.settle_of_distinct h]

/-- A reader goes on with the field that it found. -/
theorem bind_eq_some {α β : Type} {o : Option α} {f : α → Option β} {a : α} {b : β} (h : o = some a)
    (hf : f a = some b) : o.bind f = some b :=
  Option.bind_eq_some_iff.2 ⟨a, h, hf⟩

end Json

open Json

/-! ### Configurations -/

theorem Relocation.faithful : Faithful Relocation.toJson Relocation.ofJson? where
  textual r := .object (by simp [Textual.string])
  read_write r := by
    rw [ofJson?]
    refine bind_eq_some (asRecord?_object (by decide : keys.Nodup) (.refl _)) ?_
    exact bind_eq_some (Faithful.path.required rfl) (bind_eq_some (Faithful.path.required rfl) rfl)

theorem Stub.faithful : Faithful Stub.toJson Stub.ofJson? where
  textual s := .object (by simp [Textual.string])
  read_write s := by
    rw [ofJson?]
    refine bind_eq_some (asRecord?_object (by decide : keys.Nodup) (.refl _)) ?_
    exact bind_eq_some (Faithful.path.required rfl) (bind_eq_some (Faithful.text.required rfl) rfl)

theorem LayoutPlan.faithful : Faithful LayoutPlan.toJson LayoutPlan.ofJson? where
  textual l := by
    refine .object ?_
    simp only [List.forall_mem_cons, List.not_mem_nil, false_imp_iff, implies_true, and_true]
    exact ⟨.string _, Faithful.path.list.textual _, Relocation.faithful.list.textual _,
      Stub.faithful.list.textual _⟩
  read_write l := by
    rw [ofJson?]
    refine bind_eq_some (asRecord?_object (by decide : keys.Nodup) (.refl _)) ?_
    refine bind_eq_some (Faithful.path.optional rfl) ?_
    refine bind_eq_some (Faithful.path.list.optional rfl) ?_
    refine bind_eq_some (Relocation.faithful.list.optional rfl) ?_
    exact bind_eq_some (Stub.faithful.list.optional rfl) rfl

theorem Library.faithful : Faithful Library.toJson Library.ofJson? where
  textual l := .object (by simp [Textual.string])
  read_write l := by
    rw [ofJson?]
    refine bind_eq_some (asRecord?_object (by decide : keys.Nodup) (.refl _)) ?_
    exact bind_eq_some (Faithful.text.required rfl) (bind_eq_some (Faithful.path.required rfl) rfl)

theorem Registry.faithful : Faithful Registry.toJson Registry.ofJson? where
  textual r := .object (by simp [Textual.string])
  read_write r := by
    rw [ofJson?]
    refine bind_eq_some (asRecord?_object (by decide : keys.Nodup) (.refl _)) ?_
    refine bind_eq_some (Faithful.text.optional rfl) ?_
    exact bind_eq_some (Faithful.text.optional rfl) (bind_eq_some (Faithful.text.optional rfl) rfl)

theorem ConvertSettings.faithful : Faithful ConvertSettings.toJson ConvertSettings.ofJson? where
  textual s := .object (by simp [Textual.string, Textual.bool])
  read_write s := by
    rw [ofJson?]
    refine bind_eq_some (asRecord?_object (by decide : keys.Nodup) (.refl _)) ?_
    exact bind_eq_some (Faithful.bool.optional rfl) (bind_eq_some (Faithful.text.optional rfl) rfl)

/-- A file that may be left out is written as `null`. -/
theorem faithful_optionalPath : Faithful
    (fun p? : Option Path => match p? with
      | some p => .string p.text
      | none => .null)
    (asOption? Path.ofJson?) where
  textual p? := by
    cases p? with
    | none => exact .null
    | some p => exact .string _
  read_write p? := by cases p? <;> rfl

theorem GenerateSettings.faithful : Faithful GenerateSettings.toJson GenerateSettings.ofJson? where
  textual s := by
    refine .object ?_
    simp only [List.forall_mem_cons, List.not_mem_nil, false_imp_iff, implies_true, and_true]
    exact ⟨.string _, .bool _, faithful_optionalPath.textual s.table⟩
  read_write s := by
    rw [ofJson?]
    refine bind_eq_some (asRecord?_object (by decide : keys.Nodup) (.refl _)) ?_
    refine bind_eq_some (Faithful.path.optional rfl) ?_
    exact bind_eq_some (Faithful.bool.optional rfl)
      (bind_eq_some (faithful_optionalPath.optional (a := s.table) rfl) rfl)

theorem faithful_selection : Faithful selectionToJson selectionOfJson? where
  textual exclude := .object (by simpa using Faithful.text.list.textual exclude)
  read_write exclude := by
    rw [selectionOfJson?]
    refine bind_eq_some (asRecord?_object (by decide : selectionKeys.Nodup) (.refl _)) ?_
    exact Faithful.text.list.optional rfl

theorem CategoryMap.faithful : Faithful CategoryMap.toJson CategoryMap.ofJson? where
  textual m := by
    refine .object ?_
    simp only [List.forall_mem_cons, List.not_mem_nil, false_imp_iff, implies_true, and_true]
    exact ⟨.object (List.forall_mem_map.2 fun e _ => .string e.2), .string _⟩
  read_write m := by
    rw [ofJson?]
    refine bind_eq_some (asRecord?_object (by decide : keys.Nodup) (.refl _)) ?_
    refine bind_eq_some (asMap?_object m.distinct) ?_
    refine bind_eq_some (Faithful.text.optional rfl) ?_
    obtain ⟨entries, fallback, distinct⟩ := m
    simp [ofPairs, Keyed.settle_of_distinct distinct]

/-- **A configuration** is read back from the value that it is written as. -/
theorem Config.faithful : Faithful Config.toJson Config.ofJson? where
  textual c := by
    refine .object ?_
    simp only [List.forall_mem_cons, List.not_mem_nil, false_imp_iff, implies_true, and_true]
    exact ⟨.string _, LayoutPlan.faithful.textual _, Library.faithful.list.textual _,
      Registry.faithful.textual _, ConvertSettings.faithful.textual _,
      GenerateSettings.faithful.textual _, faithful_selection.textual _,
      CategoryMap.faithful.textual _⟩
  read_write c := by
    rw [ofJson?]
    refine bind_eq_some (asRecord?_object (by decide : keys.Nodup) (.refl _)) ?_
    refine bind_eq_some (Faithful.path.optional rfl) ?_
    refine bind_eq_some (LayoutPlan.faithful.optional rfl) ?_
    refine bind_eq_some (Library.faithful.list.optional rfl) ?_
    refine bind_eq_some (Registry.faithful.optional rfl) ?_
    refine bind_eq_some (ConvertSettings.faithful.optional rfl) ?_
    refine bind_eq_some (GenerateSettings.faithful.optional rfl) ?_
    refine bind_eq_some (faithful_selection.optional rfl) ?_
    exact bind_eq_some (CategoryMap.faithful.optional rfl) rfl

/-! ### Reports -/

theorem faithful_stage : Faithful (fun s : Stage => .string s.name) (asCase? Stage.names) :=
  ⟨fun _ => .string _, Stage.lookup_names⟩

theorem faithful_outcome : Faithful (fun o : Outcome => .string o.label) (asCase? Outcome.names) :=
  ⟨fun _ => .string _, Outcome.lookup_names⟩

theorem Entry.faithful : Faithful Entry.toJson Entry.ofJson? where
  textual e := by
    obtain ⟨stage, path, outcome, detail⟩ := e
    cases detail <;> exact .object (by simp [Textual.string])
  read_write e := by
    obtain ⟨stage, path, outcome, detail⟩ := e
    rw [ofJson?]
    cases detail with
    | none =>
      have hkeys : (["stage", "path", "outcome"] : List Text).Sublist keys := by decide
      refine bind_eq_some (asRecord?_object (by decide : keys.Nodup) hkeys) ?_
      refine bind_eq_some (faithful_stage.required rfl) ?_
      refine bind_eq_some (Faithful.text.required rfl) ?_
      exact bind_eq_some (faithful_outcome.required rfl) rfl
    | some d =>
      refine bind_eq_some (asRecord?_object (by decide : keys.Nodup) (.refl _)) ?_
      refine bind_eq_some (faithful_stage.required rfl) ?_
      refine bind_eq_some (Faithful.text.required rfl) ?_
      exact bind_eq_some (faithful_outcome.required rfl) rfl

theorem StageReport.faithful : Faithful StageReport.toJson StageReport.ofJson? where
  textual r := .object (by
    simp only [List.forall_mem_cons, List.not_mem_nil, false_imp_iff, implies_true, and_true]
    exact ⟨.string _, Entry.faithful.list.textual _⟩)
  read_write r := by
    rw [ofJson?]
    refine bind_eq_some (asRecord?_object (by decide : keys.Nodup) (.refl _)) ?_
    exact bind_eq_some (faithful_stage.required rfl)
      (bind_eq_some (Entry.faithful.list.required rfl) rfl)

/-- **A report** is read back from the value that it is written as. -/
theorem RunReport.faithful : Faithful RunReport.toJson RunReport.ofJson? where
  textual r := .object (by simpa using StageReport.faithful.list.textual r.stages)
  read_write r := by
    rw [ofJson?]
    refine bind_eq_some (asRecord?_object (by decide : keys.Nodup) (.refl _)) ?_
    exact bind_eq_some (StageReport.faithful.list.required rfl) rfl

/-! ### Texts -/

theorem Config.parse_of_spells {c : Config} (hc : c.check = .ok ()) {t : Text}
    (ht : Spells c.toJson.toTokens t) : Config.parse t = .ok c := by
  rw [Config.parse, (Config.faithful.textual c).parse?_of_spells ht, Option.bind_some,
    Config.faithful.read_write]
  dsimp only
  rw [hc]

theorem RunReport.parse?_of_spells (r : RunReport) {t : Text} (ht : Spells r.toJson.toTokens t) :
    RunReport.parse? t = some r := by
  rw [RunReport.parse?, (RunReport.faithful.textual r).parse?_of_spells ht, Option.bind_some,
    RunReport.faithful.read_write]

/-- **Configurations and reports survive JSON.** A configuration that passes the checks is read back
as it was from its compact text and from its text in lines, and so is every report. -/
theorem Config.parse_toJson_and_parse?_toJson (c : Config) (hc : c.check = .ok ()) (r : RunReport) :
    (Config.parse c.toJson.compact = .ok c ∧ Config.parse c.toJson.pretty = .ok c)
      ∧ RunReport.parse? r.toJson.compact = some r ∧ RunReport.parse? r.toJson.pretty = some r :=
  ⟨⟨parse_of_spells hc (spells_flatMap _), parse_of_spells hc (spells_layered 0 _)⟩,
    r.parse?_of_spells (spells_flatMap _), r.parse?_of_spells (spells_layered 0 _)⟩

/-- The default configuration, and a report with a control character and a quote in its texts. -/
theorem Config.parse_toJson_default :
    (({} : Config).check = .ok ()) ∧ Config.parse ({} : Config).toJson.pretty = .ok {}
      ∧ RunReport.parse? (RunReport.toJson
          ⟨[⟨.convert, [⟨.convert, "src/ü.js", .failed, some "\"\x01\""⟩]⟩, ⟨.patch, []⟩]⟩).compact
        = some ⟨[⟨.convert, [⟨.convert, "src/ü.js", .failed, some "\"\x01\""⟩]⟩, ⟨.patch, []⟩]⟩ := by
  have hc : ({} : Config).check = .ok () := by decide
  have h := parse_toJson_and_parse?_toJson {} hc
    ⟨[⟨.convert, [⟨.convert, "src/ü.js", .failed, some "\"\x01\""⟩]⟩, ⟨.patch, []⟩]⟩
  exact ⟨hc, h.1.2, h.2.1⟩

end ElementModules
