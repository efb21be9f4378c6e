import TableLoad.Proofs.Occurrences

namespace TableLoad.Template

section Lookup

/-- Keys lead through nested objects to a value. -/
inductive Leads : Json → List String → Json → Prop
  | here (v : Json) : Leads v [] v
  | member {ms : List (String × Json)} {member w : Json} {key : String} {keys : List String}
      (hmember : (Keyed.ofList ms).find? key = some member) (hkeys : Leads member keys w) :
      Leads (.object ms) (key :: keys) w

/-- How a value stands in a text: a string as it is, null as nothing, and every other value as
compact JSON. -/
inductive StandsAs : Json → String → Prop
  | string (s : String) : StandsAs (.string s) s
  | null : StandsAs .null ""
  | bool (b : Bool) : StandsAs (.bool b) (Json.bool b).compact
  | number (n : Json.Number) : StandsAs (.number n) (Json.number n).compact
  | array (es : List Json) : StandsAs (.array es) (Json.array es).compact
  | object (ms : List (String × Json)) : StandsAs (.object ms) (Json.object ms).compact

/-- The text that names stand for. -/
inductive Context.Resolves (ctx : Context) : List String → String → Prop
  | environment {name text : String} (h : ctx.environment name = some text) :
      Resolves ctx ["env", name] text
  | configured {keys : List String} {v : Json} {text : String} (hne : keys ≠ [])
      (h : Leads ctx.config keys v) (htext : StandsAs v text) :
      Resolves ctx ("config" :: keys) text
  | bare {keys : List String} {v : Json} {text : String}
      (henvironment : ∀ name, keys ≠ ["env", name])
      (hconfigured : ∀ rest, rest ≠ [] → keys ≠ "config" :: rest) (h : Leads ctx.config keys v)
      (htext : StandsAs v text) : Resolves ctx keys text

theorem nested?_eq_some {v w : Json} {keys : List String} :
    nested? v keys = some w ↔ Leads v keys w := by
  induction keys generalizing v with
  | nil =>
    rw [nested?, Option.some.injEq]
    constructor
    · rintro rfl
      exact .here v
    · rintro ⟨⟩
      rfl
  | cons key keys ih =>
    rw [nested?, Option.bind_eq_bind, Option.bind_eq_some_iff]
    constructor
    · rintro ⟨member, hmember, hkeys⟩
      cases v with
      | object ms => exact .member hmember (ih.mp hkeys)
      | null | bool | number | string | array => cases hmember
    · rintro (_ | ⟨hmember, hkeys⟩)
      exact ⟨_, hmember, ih.mpr hkeys⟩

theorem valueText_eq {v : Json} {text : String} : valueText v = text ↔ StandsAs v text := by
  constructor
  · rintro rfl
    cases v with
    | null => exact .null
    | bool b => exact .bool b
    | number n => exact .number n
    | string s => exact .string s
    | array es => exact .array es
    | object ms => exact .object ms
  · intro h
    cases h <;> rfl

theorem map_nested?_eq_some {v : Json} {keys : List String} {text : String} :
    (nested? v keys).map valueText = some text ↔ ∃ w, Leads v keys w ∧ StandsAs w text := by
  rw [Option.map_eq_some_iff]
  exact exists_congr fun w => and_congr nested?_eq_some valueText_eq

/-- The text that names stand for, when there is one. -/
def Context.resolve (ctx : Context) : List String → Option String
  | ["env", name] => ctx.environment name
  | "config" :: key :: keys => (nested? ctx.config (key :: keys)).map valueText
  | keys => (nested? ctx.config keys).map valueText

theorem Context.resolves_of_resolve {ctx : Context} {names : List String} {text : String}
    (h : ctx.resolve names = some text) : ctx.Resolves names text := by
  unfold resolve at h
  split at h
  · exact .environment h
  · rename_i key keys
    obtain ⟨w, hleads, htext⟩ := map_nested?_eq_some.mp h
    exact .configured (List.cons_ne_nil key keys) hleads htext
  · rename_i henvironment hconfigured
    obtain ⟨w, hleads, htext⟩ := map_nested?_eq_some.mp h
    refine .bare henvironment (fun rest hne hnames => ?_) hleads htext
    obtain ⟨key, keys, rfl⟩ := List.exists_cons_of_ne_nil hne
    exact hconfigured key keys hnames

theorem Context.resolve_eq_some {ctx : Context} {names : List String} {text : String} :
    ctx.resolve names = some text ↔ ctx.Resolves names text := by
  refine ⟨resolves_of_resolve, fun h => ?_⟩
  cases h with
  | environment h => exact h
  | configured hne hleads htext =>
    obtain ⟨key, keys, rfl⟩ := List.exists_cons_of_ne_nil hne
    exact map_nested?_eq_some.mpr ⟨_, hleads, htext⟩
  | bare henvironment hconfigured hleads htext =>
    unfold resolve
    split
    · exact absurd rfl (henvironment _)
    · rename_i key keys
      exact absurd rfl (hconfigured _ (List.cons_ne_nil key keys))
    · exact map_nested?_eq_some.mpr ⟨_, hleads, htext⟩

theorem Context.lookup_path (ctx : Context) (o : Occurrence) :
    ctx.lookup o.path = ctx.resolve o.names := by
  rw [lookup, o.splitOnChar_path]
  rfl

instance (ctx : Context) (names : List String) : Decidable (∃ text, ctx.Resolves names text) :=
  decidable_of_iff ((ctx.resolve names).isSome = true) (by
    rw [Option.isSome_iff_exists]
    exact exists_congr fun text => Context.resolve_eq_some)

end Lookup

section Rendering

variable {template : String} {pieces : List Piece} {ctx : Context} {o : Occurrence}

/-- The occurrences whose path leads nowhere. -/
def Context.unresolved (ctx : Context) (occurrences : List Occurrence) : List Occurrence :=
  occurrences.filter fun o => decide (¬ ∃ text, ctx.Resolves o.names text)

theorem unresolved_eq_nil {os : List Occurrence} :
    ctx.unresolved os = [] ↔ ∀ o ∈ os, ∃ text, ctx.Resolves o.names text := by
  rw [Context.unresolved, List.filter_eq_nil_iff]
  exact forall₂_congr fun o _ => by rw [decide_eq_true_eq, not_not]

theorem paths_eq (h : segments template = pieces.map Piece.segment) :
    paths template = (occurrences pieces).map Occurrence.path := by
  rw [paths, h, List.filterMap_map, occurrences, List.map_filterMap]
  refine List.filterMap_congr fun piece _ => ?_
  cases piece <;> rfl

/-- The paths that lead nowhere are those of the unresolved occurrences. -/
theorem undefined_eq (h : segments template = pieces.map Piece.segment) (ctx : Context) :
    (paths template).filter (fun path => (ctx.lookup path).isNone) =
      (ctx.unresolved (occurrences pieces)).map Occurrence.path := by
  rw [paths_eq h, List.filter_map]
  refine congrArg _ (List.filter_congr fun o _ => ?_)
  rw [Function.comp_apply, ctx.lookup_path, Bool.eq_iff_iff, Option.isNone_iff_eq_none,
    Option.eq_none_iff_forall_ne_some, decide_eq_true_eq, not_exists]
  exact forall_congr' fun text => not_congr Context.resolve_eq_some

theorem render_of_resolved (h : segments template = pieces.map Piece.segment)
    {text : Occurrence → String}
    (htext : ∀ o ∈ occurrences pieces, ctx.Resolves o.names (text o)) :
    render ctx template = .ok (String.join (pieces.map (Piece.replaced text))) := by
  have hnone : (paths template).filter (fun path => (ctx.lookup path).isNone) = [] := by
    rw [undefined_eq h, unresolved_eq_nil.mpr fun o ho => ⟨text o, htext o ho⟩, List.map_nil]
  have hpiece : ∀ piece ∈ pieces,
      (Segment.text ctx ∘ Piece.segment) piece = Piece.replaced text piece := by
    intro piece hpiece
    cases piece with
    | char c => rfl
    | occurrence o =>
      have hlookup := Context.resolve_eq_some.mpr (htext o (mem_occurrences.mpr hpiece))
      rw [← Context.lookup_path] at hlookup
      simp only [Function.comp_apply, Piece.segment, Segment.text, Piece.replaced, hlookup,
        Option.getD_some]
  rw [render, hnone, h, List.map_map, List.map_congr_left hpiece]

theorem render_of_unresolved (h : segments template = pieces.map Piece.segment)
    (hunresolved : ctx.unresolved (occurrences pieces) ≠ []) :
    render ctx template = .error (.undefinedVariable (", ".intercalate
      ((ctx.unresolved (occurrences pieces)).map Occurrence.path))) := by
  rw [← undefined_eq h, render]
  split
  · rename_i hnil
    rw [undefined_eq h, List.map_eq_nil_iff] at hnil
    exact absurd hnil hunresolved
  · rfl

theorem hasVariables_eq_true (h : segments template = pieces.map Piece.segment) :
    hasVariables template = true ↔ occurrences pieces ≠ [] := by
  rw [hasVariables, paths_eq h, Bool.not_eq_true', List.isEmpty_eq_false_iff, ne_eq,
    List.map_eq_nil_iff]

end Rendering

/-- No two occurrences in a template overlap. The template falls into pieces, all its occurrences
among them: where every occurrence has a text, rendering puts these texts in their place and keeps
every other character; where some have none, it names the paths of all those. A template has
variables if it has an occurrence, and without one it is rendered as it stands. -/
theorem render_replaces_occurrences (template : String) :
    (∀ (front rest front' rest' : String) (o o' : Occurrence),
      template = front ++ o.written ++ rest → template = front' ++ o'.written ++ rest' →
      (front = front' ∧ o = o' ∧ rest = rest') ∨
      (∃ between, front' = front ++ o.written ++ between) ∨
      ∃ between, front = front' ++ o'.written ++ between) ∧
    (∃ pieces : List Piece, String.join (pieces.map Piece.written) = template ∧
      (∀ (front rest : String) (o : Occurrence), template = front ++ o.written ++ rest →
        ∃ before after, pieces = before ++ .occurrence o :: after ∧
          String.join (before.map Piece.written) = front ∧
          String.join (after.map Piece.written) = rest) ∧
      ∀ ctx : Context,
        (∀ text : Occurrence → String,
          (∀ o ∈ occurrences pieces, ctx.Resolves o.names (text o)) →
          render ctx template = .ok (String.join (pieces.map (Piece.replaced text)))) ∧
        ((∃ o ∈ occurrences pieces, ∀ text, ¬ ctx.Resolves o.names text) →
          render ctx template = .error (.undefinedVariable (", ".intercalate
            ((ctx.unresolved (occurrences pieces)).map Occurrence.path))))) ∧
    (hasVariables template = true ↔
      ∃ (front rest : String) (o : Occurrence), template = front ++ o.written ++ rest) ∧
    (hasVariables template = false → ∀ ctx, render ctx template = .ok template) := by
  obtain ⟨pieces, hsegments, hjoined, hcomplete⟩ := exists_pieces template
  refine ⟨fun _ _ _ _ _ _ => Occurrence.eq_or_before_or_behind,
    ⟨pieces, hjoined, hcomplete, fun ctx => ⟨fun text => render_of_resolved hsegments, ?_⟩⟩,
    ?_, fun hnone ctx => ?_⟩
  · rintro ⟨o, ho, hnone⟩
    refine render_of_unresolved hsegments fun hnil => ?_
    obtain ⟨text, htext⟩ := unresolved_eq_nil.mp hnil o ho
    exact hnone text htext
  · rw [hasVariables_eq_true hsegments]
    constructor
    · intro hne
      obtain ⟨o, ho⟩ := List.exists_mem_of_ne_nil _ hne
      obtain ⟨front, rest, hsplit⟩ := split_of_mem ho
      exact ⟨front, rest, o, hjoined.symm.trans hsplit⟩
    · rintro ⟨front, rest, o, h⟩
      obtain ⟨before, after, rfl, -⟩ := hcomplete front rest o h
      exact List.ne_nil_of_mem (mem_occurrences.mpr (List.mem_append_right _ List.mem_cons_self))
  · have hempty : occurrences pieces = [] := by
      by_contra hne
      rw [(hasVariables_eq_true hsegments).mpr hne] at hnone
      cases hnone
    -- With no occurrence to replace, any text may stand for one: its own leaves all as it is.
    have hsame : Piece.replaced Occurrence.written = Piece.written := by
      funext piece
      cases piece <;> rfl
    have htext : ∀ o ∈ occurrences pieces, ctx.Resolves o.names o.written := by
      rw [hempty]
      simp
    rw [render_of_resolved hsegments htext, hsame, hjoined]

/-- Of more braces than two an occurrence takes the inner ones. -/
example : paths "\x7b\x7b\x7b a.b \x7d\x7d\x7d \x7b\x7b a \x7b\x7b b\x7d\x7d" = ["a.b", "b"] := by
  decide

end TableLoad.Template
