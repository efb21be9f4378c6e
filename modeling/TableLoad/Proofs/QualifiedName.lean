import TableLoad.Proofs.Deletion
import TableLoad.Proofs.Splitting

namespace TableLoad

namespace TableRef

/-- What may stand between the dots of a qualified name. -/
structure IsName (s : String) : Prop where
  ne_empty : s ≠ ""
  no_dot : '.' ∉ s.toList
  trimmed : Text.trim s = s

/-- The parts of the qualified name. -/
def parts (t : TableRef) : List String :=
  t.catalog.toList ++ [t.schema, t.table]

/-- The parts of an identifier, without the blanks around them. -/
def pieces (identifier : String) : List String :=
  (Text.splitOnChar '.' (Text.trimChars identifier.toList)).map fun part =>
    String.ofList (Text.trimChars part)

section Parsing

variable {identifier schema : String} {names : List String} {t : TableRef}

theorem qualified_eq (t : TableRef) : t.qualified = ".".intercalate t.parts := by
  obtain ⟨catalog, schema, table⟩ := t
  cases catalog <;> simp [qualified, parts, String.intercalate_cons_cons, String.append_assoc]

theorem isName_of_mem_pieces {part : String} (h : part ∈ pieces identifier) (hne : part ≠ "") :
    IsName part := by
  obtain ⟨cs, hcs, rfl⟩ := List.mem_map.mp h
  refine ⟨hne, ?_, ?_⟩
  · rw [String.toList_ofList]
    intro hdot
    exact Text.sep_notMem_splitOnChar hcs (Text.mem_of_mem_trimChars hdot)
  · rw [Text.trim, String.toList_ofList, Text.trimChars_trimChars]

theorem IsName.trimChars {s : String} (h : IsName s) : Text.trimChars s.toList = s.toList := by
  have htrim := congrArg String.toList h.trimmed
  rwa [Text.trim, String.toList_ofList] at htrim

/-- Names joined by dots are the parts of what they are joined to. -/
theorem pieces_intercalate (hne : names ≠ []) (h : ∀ name ∈ names, IsName name) :
    pieces (".".intercalate names) = names := by
  have hchars : (".".intercalate names).toList = ['.'].intercalate (names.map String.toList) :=
    String.toList_intercalate
  have htrim : Text.trimChars (['.'].intercalate (names.map String.toList)) =
      ['.'].intercalate (names.map String.toList) := by
    apply Text.trimChars_intercalate (by decide)
    intro cs hcs
    obtain ⟨name, hname, rfl⟩ := List.mem_map.mp hcs
    exact (h name hname).trimChars
  have hsplit : Text.splitOnChar '.' (['.'].intercalate (names.map String.toList)) =
      names.map String.toList := by
    apply Text.splitOnChar_intercalate (by simpa using hne)
    intro cs hcs
    obtain ⟨name, hname, rfl⟩ := List.mem_map.mp hcs
    exact (h name hname).no_dot
  rw [pieces, hchars, htrim, hsplit, List.map_map]
  conv_rhs => rw [← List.map_id names]
  refine List.map_congr_left fun name hname => ?_
  rw [Function.comp_apply, (h name hname).trimChars, String.ofList_toList, id]

/-- An identifier is read as all its parts, or as a table in the default schema. -/
theorem parse_eq_ok : parse identifier schema = .ok t ↔
    (∀ part ∈ pieces identifier, part ≠ "") ∧
      (pieces identifier = t.parts ∨
        pieces identifier = [t.table] ∧ t.catalog = none ∧ t.schema = schema) := by
  have hempty : (pieces identifier).any String.isEmpty = true ↔
      ¬ ∀ part ∈ pieces identifier, part ≠ "" := by
    simp
  dsimp only [parse]
  rw [← pieces]
  by_cases hall : ∀ part ∈ pieces identifier, part ≠ ""
  · rw [if_neg (fun h => hempty.mp h hall), and_iff_right hall]
    obtain ⟨catalog, schema', table⟩ := t
    rcases pieces identifier with _ | ⟨a, _ | ⟨b, _ | ⟨c, _ | ⟨d, rest⟩⟩⟩⟩
    · cases catalog <;> simp [parts]
    · cases catalog with
      | some catalog => simp [parts]
      | none =>
        have hschema : schema = schema' ↔ schema' = schema := eq_comm
        simp [parts, hschema, and_comm]
    · cases catalog <;> simp [parts]
    · cases catalog <;> simp [parts]
    · cases catalog <;> simp [parts]
  · rw [if_pos (hempty.mpr hall)]
    exact iff_of_false (fun h => by cases h) (fun h => hall h.1)

/-- An identifier names a table when it has one to three pieces and none of them is empty. -/
theorem exists_parse_iff_pieces : (∃ t, parse identifier schema = .ok t) ↔
    (∀ part ∈ pieces identifier, part ≠ "") ∧
      1 ≤ (pieces identifier).length ∧ (pieces identifier).length ≤ 3 := by
  simp only [parse_eq_ok]
  constructor
  · intro h
    obtain ⟨t, hall, hparts | ⟨hone, -, -⟩⟩ := h
    · rw [hparts, parts] at hall ⊢
      refine ⟨hall, ?_⟩
      cases t.catalog <;> simp
    · rw [hone] at hall ⊢
      exact ⟨hall, by simp⟩
  · intro h
    generalize pieces identifier = parts at h ⊢
    obtain ⟨hall, hlow, hhigh⟩ := h
    rcases parts with _ | ⟨a, _ | ⟨b, _ | ⟨c, _ | ⟨d, rest⟩⟩⟩⟩
    · cases hlow
    · exact ⟨⟨none, schema, a⟩, hall, .inr ⟨rfl, rfl, rfl⟩⟩
    · exact ⟨⟨none, a, b⟩, hall, .inl rfl⟩
    · exact ⟨⟨some a, b, c⟩, hall, .inl rfl⟩
    · simp only [List.length_cons] at hhigh
      omega

/-- What the dots of an identifier part, once the blanks at its ends are gone. -/
theorem cut_iff (hne : names ≠ []) :
    (Text.trim identifier = ".".intercalate names ∧ ∀ name ∈ names, '.' ∉ name.toList) ↔
      names.map String.toList = Text.splitOnChar '.' (Text.trimChars identifier.toList) := by
  have hchars : Text.trim identifier = ".".intercalate names ↔
      Text.trimChars identifier.toList = ['.'].intercalate (names.map String.toList) := by
    have hdot : ".".toList = ['.'] := rfl
    rw [← String.toList_inj, Text.trim, String.toList_ofList, String.toList_intercalate, hdot]
  rw [hchars]
  constructor
  · intro h
    obtain ⟨htrim, hdots⟩ := h
    rw [htrim, Text.splitOnChar_intercalate (by simpa using hne)]
    intro cs hcs
    obtain ⟨name, hname, rfl⟩ := List.mem_map.mp hcs
    exact hdots name hname
  · intro hcut
    rw [hcut, Text.intercalate_splitOnChar]
    refine ⟨rfl, fun name hname => ?_⟩
    have hmem : name.toList ∈ Text.splitOnChar '.' (Text.trimChars identifier.toList) := by
      rw [← hcut]
      exact List.mem_map_of_mem hname
    exact Text.sep_notMem_splitOnChar hmem

theorem exists_cut (identifier : String) : ∃ names : List String, names ≠ [] ∧
    names.map String.toList = Text.splitOnChar '.' (Text.trimChars identifier.toList) := by
  refine ⟨(Text.splitOnChar '.' (Text.trimChars identifier.toList)).map String.ofList, ?_, ?_⟩
  · simpa using Text.splitOnChar_ne_nil '.' _
  · simp [Function.comp_def]

theorem trim_ne_empty_iff {s : String} : Text.trim s ≠ "" ↔ Text.isAllBlank s = false := by
  rw [Ne, ← String.toList_inj, Text.trim, String.toList_ofList, String.toList_empty,
    Text.trimChars_eq_nil, Bool.not_eq_true]
  rfl

/-- The pieces are what the dots part, without blanks, so none of them is empty when no part is
blank. -/
theorem pieces_of_cut
    (h : names.map String.toList = Text.splitOnChar '.' (Text.trimChars identifier.toList)) :
    (pieces identifier).length = names.length ∧
      ((∀ part ∈ pieces identifier, part ≠ "") ↔ ∀ name ∈ names, Text.isAllBlank name = false) := by
  have hpieces : pieces identifier = names.map Text.trim := by
    rw [pieces, ← h, List.map_map]
    rfl
  rw [hpieces, List.forall_mem_map]
  exact ⟨List.length_map _, forall₂_congr fun _ _ => trim_ne_empty_iff⟩

/-- An identifier names a table when it has one to three parts and none of them is blank. -/
theorem exists_parse_iff : (∃ t, parse identifier schema = .ok t) ↔
    ∃ names : List String, Text.trim identifier = ".".intercalate names ∧
      (∀ name ∈ names, '.' ∉ name.toList ∧ Text.isAllBlank name = false) ∧
      1 ≤ names.length ∧ names.length ≤ 3 := by
  rw [exists_parse_iff_pieces]
  constructor
  · intro h
    obtain ⟨hall, hlength⟩ := h
    obtain ⟨names, hne, hcut⟩ := exists_cut identifier
    obtain ⟨hsame, hblank⟩ := pieces_of_cut hcut
    obtain ⟨htrim, hdots⟩ := (cut_iff hne).mpr hcut
    rw [hsame] at hlength
    exact ⟨names, htrim, fun name hname => ⟨hdots name hname, hblank.mp hall name hname⟩, hlength⟩
  · intro h
    obtain ⟨names, htrim, hnames, hlength⟩ := h
    have hne : names ≠ [] := List.length_pos_iff.mp hlength.1
    have hcut := (cut_iff hne).mp ⟨htrim, fun name hname => (hnames name hname).1⟩
    obtain ⟨hsame, hblank⟩ := pieces_of_cut hcut
    rw [hsame]
    exact ⟨hblank.mpr fun name hname => (hnames name hname).2, hlength⟩

/-- No part of the table's name is blank, or has a dot or blanks at its ends. -/
def Named (t : TableRef) : Prop :=
  ∀ part ∈ t.parts, IsName part

theorem named_of_parse (hschema : IsName schema) (h : parse identifier schema = .ok t) :
    t.Named := by
  obtain ⟨hall, hparts | ⟨hone, hcatalog, hdefault⟩⟩ := parse_eq_ok.mp h
  · intro part hpart
    rw [← hparts] at hpart
    exact isName_of_mem_pieces hpart (hall part hpart)
  · have htable : t.table ∈ pieces identifier := by
      rw [hone]
      exact List.mem_singleton_self _
    intro part hpart
    simp only [parts, hcatalog, hdefault, Option.toList_none, List.nil_append, List.mem_cons,
      List.not_mem_nil, or_false] at hpart
    rcases hpart with rfl | rfl
    · exact hschema
    · exact isName_of_mem_pieces htable (hall _ htable)

/-- A qualified name has all its parts, so the default schema plays no part. -/
theorem parse_qualified (h : t.Named) (schema : String) : parse t.qualified schema = .ok t := by
  have hne : t.parts ≠ [] := by simp [parts]
  have hpieces : pieces t.qualified = t.parts := by rw [qualified_eq, pieces_intercalate hne h]
  refine parse_eq_ok.mpr ⟨fun part hpart => ?_, .inl hpieces⟩
  rw [hpieces] at hpart
  exact (h part hpart).ne_empty

end Parsing

end TableRef

theorem Destination.named_of_resolve {destination : Destination} {identifier : String}
    {t : TableRef} (hschema : TableRef.IsName destination.schema)
    (h : destination.resolve identifier = .ok t) : t.Named := by
  obtain ⟨t', hparse, ht⟩ : ∃ t', TableRef.parse identifier destination.schema = .ok t' ∧
      t = if destination.engine != .duckdb && t'.catalog.isNone then
        t'.inCatalog attachedCatalog else t' := by
    rw [resolve] at h
    cases hparse : TableRef.parse identifier destination.schema with
    | error e =>
      rw [hparse] at h
      cases h
    | ok t' =>
      rw [hparse] at h
      cases h
      exact ⟨t', rfl, rfl⟩
  have hnamed := TableRef.named_of_parse hschema hparse
  have hattached : TableRef.IsName attachedCatalog := ⟨by decide, by decide, by decide⟩
  rw [ht]
  split
  · intro part hpart
    rw [TableRef.parts, TableRef.inCatalog, Option.toList_some, List.singleton_append,
      List.mem_cons] at hpart
    rcases hpart with rfl | hpart
    · exact hattached
    · exact hnamed part (List.mem_append_right _ hpart)
  · exact hnamed

/-- The table that a statement names. -/
def Statement.table : Statement → String
  | insert s => s.table
  | delete s => s.table

theorem Loader.table_of_mem_plan {delete : Option Delete} {inserts : List Insert} {table : String}
    (hdelete : ∀ s, delete = some s → s.table = table) (hinserts : ∀ s ∈ inserts, s.table = table)
    {statement : Statement} (h : statement ∈ plan delete inserts) : statement.table = table := by
  rcases List.mem_append.mp h with h | h
  · obtain ⟨s, hs, rfl⟩ := List.mem_map.mp h
    exact hdelete s (Option.mem_toList.mp hs)
  · obtain ⟨s, hs, rfl⟩ := List.mem_map.mp h
    exact hinserts s hs

namespace Load

/-- An identifier names a table exactly when it has one to three parts and none of them is blank. The
qualified name of that table is read as the same table whatever the default schema is, and so is
the name in every statement that a load executes; it is the table whose catalog the load has. -/
theorem identifier_round_trip {schema : String} (hschema : TableRef.IsName schema)
    (identifier : String) :
    ((∃ t, TableRef.parse identifier schema = .ok t) ↔
      ∃ names : List String, Text.trim identifier = ".".intercalate names ∧
        (∀ name ∈ names, '.' ∉ name.toList ∧ Text.isAllBlank name = false) ∧
        1 ≤ names.length ∧ names.length ≤ 3) ∧
    (∀ t, TableRef.parse identifier schema = .ok t →
      ∀ other, TableRef.parse t.qualified other = .ok t) ∧
    ∀ {ω σ : Type} (session : Session ω) (source : Source σ) (engine : Engine)
      (connection : String) (config : LoadConfig) (s : σ) (w : ω),
      ∀ statement ∈ (run session.recorded source ⟨engine, connection, schema⟩ identifier config s
          (w, [])).2.2.2,
        ∃ t catalog, Destination.resolve ⟨engine, connection, schema⟩ identifier = .ok t ∧
          session.columnsOf t w = .ok catalog ∧
          ∀ other, TableRef.parse statement.table other = .ok t := by
  refine ⟨TableRef.exists_parse_iff, fun t ht => ?_, ?_⟩
  · exact TableRef.parse_qualified (TableRef.named_of_parse hschema ht)
  · intro ω σ session source engine connection config s w statement hstatement
    obtain ⟨ran, hrun, hnothing | ⟨t, catalog, inserts, ht, hcatalog, hinto, hplan⟩⟩ :=
      run_executes_into session source ⟨engine, connection, schema⟩ identifier config s w
    · rw [hrun, hnothing] at hstatement
      cases hstatement
    · rw [hrun] at hstatement
      have hdelete : ∀ d, config.deleteFrom t.qualified = some d → d.table = t.qualified := by
        intro d hd
        obtain ⟨rule, -, rfl⟩ := Option.map_eq_some_iff.mp hd
        rfl
      have htable := Loader.table_of_mem_plan hdelete hinto (hplan.subset hstatement)
      refine ⟨t, catalog, ht, hcatalog, ?_⟩
      rw [htable]
      exact TableRef.parse_qualified (Destination.named_of_resolve hschema ht)

/-- Blanks around the parts do not come back. -/
theorem spaced_identifier_round_trip : TableRef.IsName "main" ∧
    ∃ t, TableRef.parse " sales . orders\u3000" "main" = .ok t ∧
      TableRef.parse "sales.orders" "public" = .ok t := by
  have hmain : TableRef.IsName "main" := ⟨by decide, by decide, by decide⟩
  have hparse : TableRef.parse " sales . orders\u3000" "main" = .ok ⟨none, "sales", "orders"⟩ := by
    decide +kernel
  have hround := (identifier_round_trip hmain " sales . orders\u3000").2.1 _ hparse "public"
  exact ⟨hmain, _, hparse, hround⟩

end Load

end TableLoad
