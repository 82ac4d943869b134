import DeclaredSchema.Configuration
import DeclaredSchema.Proofs.Except
import Mathlib.Data.List.Forall2
import Mathlib.Data.List.Nodup

/-!
# Well-formed configurations

Which data are a configuration, and which options they give, is said here without the reader: a
mapping with no keys but the two that are known, where a list under the second describes scalars
with names of their own. The reader accepts these data and no others, and gives their options.

What is refused is reported as a fault of the file, with one exception: a key that is no text
escapes, since the message that lists unknown keys cannot be made.

## Main definitions

* `Names`, `Describes` — the name that a text gives, and the scalar that an entry of the list gives
* `Configures` — the options that data give
* `HasOddKey` — there is a key that is no text

## Main results

* `ofData_eq_ok_iff` — the reader accepts exactly what is well formed
* `isReported_of_ofData` — what is refused is reported, unless there is a key that is no text
* `configuration_exact` — both, with the table of the scalars
-/

namespace DeclaredSchema

open Yaml (Atom Datum Data)

/-! ### Well-formed data -/

/-- The text is a public name: a letter or an underscore, then letters, digits and underscores, and
no two underscores at its start. -/
structure Names (text : CodeText) (name : String) : Prop where
  spelled : text = CodeText.ofString name
  characters : ∃ c rest, name.toList = c :: rest ∧ (c.isAlpha = true ∨ c = '_') ∧
    ∀ x ∈ rest, x.isAlphanum = true ∨ x = '_'
  unreserved : ¬['_', '_'] <+: name.toList

/-- A field of a mapping that is a text, if the field is there. -/
def HasText (entries : List (Atom × Datum)) (key : String) : Option CodeText → Prop
  | none => Yaml.lookup? entries key = none
  | some text => Yaml.lookup? entries key = some (.atom (.str text))

/-- The scalar that an entry of the list gives: by its name alone, or by a mapping. -/
inductive Describes (d : Data) : Datum → CustomScalar → Prop
  | name {text : CodeText} {name : String} (hname : Names text name) :
      Describes d (.atom (.str text)) (.own name none none)
  | fields {entry : Datum} {entries : List (Atom × Datum)} {text : CodeText} {name : String}
      {description specifiedBy : Option CodeText} (hentries : d.entries? entry = some entries)
      (htext : HasText entries nameKey (some text)) (hname : Names text name)
      (hdescription : HasText entries descriptionKey description)
      (hspecifiedBy : HasText entries specifiedByKey specifiedBy) :
      Describes d entry (.own name description specifiedBy)

/-- The flag is a truth value, and false if it is not there. -/
def HasFlag (entries : List (Atom × Datum)) (flag : Bool) : Prop :=
  Yaml.lookup? entries enumsKey = some (.atom (.bool flag)) ∨
    Yaml.lookup? entries enumsKey = none ∧ flag = false

/-- The items are those of a list, and there are none if the list is not there. -/
def HasItems (d : Data) (entries : List (Atom × Datum)) (items : List Datum) : Prop :=
  (∃ list, Yaml.lookup? entries scalarsKey = some list ∧ d.items? list = some items) ∨
    Yaml.lookup? entries scalarsKey = none ∧ items = []

/-- The options that data give: the standard options if the data say nothing, and else those of a
mapping, with its scalars in the order of the list. -/
inductive Configures (d : Data) : CompileOptions → Prop
  | nothing (hroot : d.root = .atom .null) : Configures d .standard
  | mapping {entries : List (Atom × Datum)} {flag : Bool} {items : List Datum}
      {scalars : List CustomScalar} (hentries : d.entries? d.root = some entries)
      (hkeys : ∀ e ∈ entries, e.1 = .str enumsKey ∨ e.1 = .str scalarsKey)
      (hflag : HasFlag entries flag) (hitems : HasItems d entries items)
      (hscalars : List.Forall₂ (Describes d) items scalars)
      (hnames : (scalars.map CustomScalar.name).Nodup) : Configures d ⟨scalars, none, flag⟩

/-- The key is a text. -/
def IsTextKey (key : Atom) : Prop := ∃ text, key = .str text

/-- The data are a mapping with a key that is no text, and so is not known. -/
def HasOddKey (d : Data) : Prop :=
  ∃ entries, d.entries? d.root = some entries ∧ ∃ e ∈ entries, ¬IsTextKey e.1

variable {d : Data} {entries : List (Atom × Datum)} {key : String} {text : CodeText}
  {name label : String} {fault : ConfigFault}

/-! ### Names -/

theorem eq_of_mapM_toChar? {cs : List Char} (h : text.mapM CodePoint.toChar? = some cs) :
    text = CodeText.ofChars cs := by
  induction text generalizing cs with
  | nil =>
    cases h
    rfl
  | cons x text ih =>
    rw [List.mapM_cons] at h
    cases x with
    | half distance => cases h
    | char c =>
      obtain ⟨rest, hrest, rfl⟩ : ∃ rest, text.mapM CodePoint.toChar? = some rest ∧
          c :: rest = cs := by
        simpa [CodePoint.toChar?, Option.bind_eq_some_iff] using h
      rw [ih hrest, CodeText.ofChars_cons]

theorem toString?_eq_some_iff : text.toString? = some name ↔ text = CodeText.ofString name := by
  constructor
  · intro h
    obtain ⟨cs, hcs, rfl⟩ := Option.map_eq_some_iff.mp h
    rw [eq_of_mapM_toChar? hcs, CodeText.ofString, String.toList_ofList]
  · rintro rfl
    exact CodeText.toString?_ofString name

theorem isPublicName_iff : isPublicName name = true ↔
    (∃ c rest, name.toList = c :: rest ∧ (c.isAlpha = true ∨ c = '_') ∧
      ∀ x ∈ rest, x.isAlphanum = true ∨ x = '_') ∧ ¬['_', '_'] <+: name.toList := by
  have hreserved : isReserved name = true ↔ ['_', '_'] <+: name.toList := List.isPrefixOf_iff_prefix
  have hname : isName name = true ↔ ∃ c rest, name.toList = c :: rest ∧
      (c.isAlpha = true ∨ c = '_') ∧ ∀ x ∈ rest, x.isAlphanum = true ∨ x = '_' := by
    unfold isName
    cases name.toList <;> simp [isNameStart, isNamePart]
  rw [isPublicName, Bool.and_eq_true, hname, Bool.not_eq_true', ← Bool.not_eq_true, hreserved]

theorem scalarName_eq_ok_iff : scalarName text = .ok name ↔ Names text name := by
  have hread : scalarName text = .ok name ↔
      (text.toString?.filter isPublicName) = some name := by
    unfold scalarName
    cases text.toString?.filter isPublicName <;> simp
  rw [hread, Option.filter_eq_some_iff, toString?_eq_some_iff, isPublicName_iff]
  exact ⟨fun ⟨htext, hchars, hreserved⟩ => ⟨htext, hchars, hreserved⟩,
    fun ⟨htext, hchars, hreserved⟩ => ⟨htext, hchars, hreserved⟩⟩

/-! ### Entries of the list -/

theorem requiredText_eq_ok_iff :
    requiredText entries key = .ok text ↔ HasText entries key (some text) := by
  unfold requiredText HasText
  split <;> simp_all

theorem optionalText_eq_ok_iff {field : Option CodeText} :
    optionalText entries key = .ok field ↔ HasText entries key field := by
  unfold optionalText
  split
  · next hnone =>
    have hnone := Option.isNone_iff_eq_none.mp hnone
    cases field with
    | none => simp [HasText, hnone]
    | some text => simp [HasText, hnone]
  · next hsome =>
    have hread : some <$> requiredText entries key = .ok field ↔
        ∃ text, requiredText entries key = .ok text ∧ some text = field := map_eq_ok
    rw [hread]
    cases field with
    | none => simpa [HasText] using hsome
    | some text => simp [requiredText_eq_ok_iff]

theorem ofEntries_eq_ok_iff {s : CustomScalar} : CustomScalar.ofEntries entries = .ok s ↔
    ∃ text name description specifiedBy, HasText entries nameKey (some text) ∧ Names text name ∧
      HasText entries descriptionKey description ∧ HasText entries specifiedByKey specifiedBy ∧
      s = .own name description specifiedBy := by
  simp only [CustomScalar.ofEntries, bind_eq_ok, requiredText_eq_ok_iff, scalarName_eq_ok_iff,
    optionalText_eq_ok_iff, pure_eq_ok, Except.ok.injEq]
  constructor
  · rintro ⟨text, htext, name, hname, description, hdescription, specifiedBy, hspecifiedBy, rfl⟩
    exact ⟨text, name, description, specifiedBy, htext, hname, hdescription, hspecifiedBy, rfl⟩
  · rintro ⟨text, name, description, specifiedBy, htext, hname, hdescription, hspecifiedBy, rfl⟩
    exact ⟨text, htext, name, hname, description, hdescription, specifiedBy, hspecifiedBy, rfl⟩

/-- **An entry is read** exactly when it describes a scalar. -/
theorem ofDatum_eq_ok_iff {entry : Datum} {s : CustomScalar} :
    CustomScalar.ofDatum d entry = .ok s ↔ Describes d entry s := by
  unfold CustomScalar.ofDatum
  split
  · next text =>
    simp only [bind_eq_ok, scalarName_eq_ok_iff, pure_eq_ok, Except.ok.injEq]
    constructor
    · rintro ⟨name, hname, rfl⟩
      exact .name hname
    · intro h
      cases h with
      | name hname => exact ⟨_, hname, rfl⟩
      | fields hentries => cases hentries
  · next htext =>
    split
    · next entries hentries =>
      rw [ofEntries_eq_ok_iff]
      constructor
      · rintro ⟨text, name, description, specifiedBy, htext, hname, hdescription, hspecifiedBy, rfl⟩
        exact .fields hentries htext hname hdescription hspecifiedBy
      · intro h
        cases h with
        | name => exact absurd rfl (htext _)
        | fields hentries' htext hname hdescription hspecifiedBy =>
          cases hentries.symm.trans hentries'
          exact ⟨_, _, _, _, htext, hname, hdescription, hspecifiedBy, rfl⟩
    · next hentries =>
      refine ⟨nofun, fun h => ?_⟩
      cases h with
      | name => exact absurd rfl (htext _)
      | fields hentries' => cases hentries.symm.trans hentries'

theorem scalarsFrom_cons_eq_ok_iff {index : Nat} {seen : List String} {entry : Datum}
    {items : List Datum} {scalars : List CustomScalar} :
    scalarsFrom d index seen (entry :: items) = .ok scalars ↔
      ∃ s rest, Describes d entry s ∧ s.name ∉ seen ∧
        scalarsFrom d (index + 1) (s.name :: seen) items = .ok rest ∧ scalars = s :: rest := by
  rw [scalarsFrom, bind_eq_ok]
  refine exists_congr fun s => ?_
  rw [mapError_eq_ok, ofDatum_eq_ok_iff]
  by_cases hseen : s.name ∈ seen
  · simp [hseen, throw, throwThe, MonadExceptOf.throw, error_bind]
  · simp [hseen, bind_eq_ok, pure_eq_ok, @eq_comm _ scalars]

/-- **A list is read** exactly when its entries describe scalars whose names are all different, and
different from those that were read before. -/
theorem scalarsFrom_eq_ok_iff {index : Nat} {seen : List String} {items : List Datum}
    {scalars : List CustomScalar} : scalarsFrom d index seen items = .ok scalars ↔
      List.Forall₂ (Describes d) items scalars ∧ (scalars.map CustomScalar.name).Nodup ∧
        ∀ s ∈ scalars, s.name ∉ seen := by
  induction items generalizing index seen scalars with
  | nil =>
    rw [scalarsFrom, Except.ok.injEq, List.forall₂_nil_left_iff]
    constructor
    · rintro rfl
      exact ⟨rfl, List.nodup_nil, nofun⟩
    · exact fun h => h.1.symm
  | cons entry items ih =>
    rw [scalarsFrom_cons_eq_ok_iff, List.forall₂_cons_left_iff]
    constructor
    · rintro ⟨s, rest, hs, hseen, hrest, rfl⟩
      obtain ⟨hmore, hnodup, hfresh⟩ := ih.mp hrest
      have hapart : ∀ t ∈ rest, t.name ≠ s.name ∧ t.name ∉ seen := by
        simpa using hfresh
      refine ⟨⟨s, rest, hs, hmore, rfl⟩, ?_, ?_⟩
      · rw [List.map_cons, List.nodup_cons]
        refine ⟨fun hmem => ?_, hnodup⟩
        obtain ⟨t, ht, heq⟩ := List.mem_map.mp hmem
        exact (hapart t ht).1 heq
      · exact List.forall_mem_cons.mpr ⟨hseen, fun t ht => (hapart t ht).2⟩
    · rintro ⟨⟨s, rest, hs, hmore, rfl⟩, hnodup, hfresh⟩
      rw [List.map_cons, List.nodup_cons] at hnodup
      obtain ⟨hseen, hrest⟩ := List.forall_mem_cons.mp hfresh
      refine ⟨s, rest, hs, hseen, ih.mpr ⟨hmore, hnodup.2, fun t ht => ?_⟩, rfl⟩
      rw [List.mem_cons, not_or]
      exact ⟨fun heq => hnodup.1 (List.mem_map.mpr ⟨t, ht, heq⟩), hrest t ht⟩

/-! ### Whole data -/

theorem enumsFlag_eq_ok_iff {flag : Bool} :
    enumsFlag entries = .ok flag ↔ HasFlag entries flag := by
  unfold enumsFlag HasFlag
  split
  · next hnone => simp [hnone, eq_comm]
  · next given hgiven => simp [hgiven]
  · next value hother hvalue =>
    rw [hvalue]
    simpa using hother flag

theorem scalarList_eq_ok_iff {items : List Datum} :
    scalarList d entries = .ok items ↔ HasItems d entries items := by
  unfold scalarList HasItems
  split
  · next hnone => simp [hnone, eq_comm]
  · next list hlist =>
    cases hitems : d.items? list <;> simp [hlist, hitems]

theorem isKnownKey_iff {key : Atom} :
    isKnownKey key = true ↔ key = .str enumsKey ∨ key = .str scalarsKey := by
  unfold isKnownKey
  split <;> simp_all

theorem checkKeys_eq_ok_iff : checkKeys entries = .ok () ↔
    ∀ e ∈ entries, e.1 = .str enumsKey ∨ e.1 = .str scalarsKey := by
  have hknown : checkKeys entries = .ok () ↔
      (entries.map Prod.fst).filter (fun k => !isKnownKey k) = [] := by
    unfold checkKeys
    split
    · next hnil => simp only [hnil]
    · next hcons => simp only [hcons, reduceCtorEq]
  rw [hknown, List.filter_eq_nil_iff]
  simp [isKnownKey_iff]

/-- **The reader accepts exactly what is well formed**, and gives its options. -/
theorem ofData_eq_ok_iff {o : CompileOptions} :
    CompileOptions.ofData d = .ok o ↔ Configures d o := by
  unfold CompileOptions.ofData
  split
  · next hroot =>
    constructor
    · rintro ⟨⟩
      exact .nothing hroot
    · intro h
      cases h with
      | nothing => rfl
      | mapping hentries => rw [hroot] at hentries; cases hentries
  · next hroot =>
    split
    · next hnone =>
      refine ⟨nofun, fun h => ?_⟩
      cases h with
      | nothing heq => exact absurd heq hroot
      | mapping hentries => cases hnone.symm.trans hentries
    · next entries hentries =>
      simp only [bind_eq_ok, enumsFlag_eq_ok_iff, scalarList_eq_ok_iff, scalarsFrom_eq_ok_iff,
        pure_eq_ok, Except.ok.injEq]
      constructor
      · rintro ⟨_, hkeys, flag, hflag, items, hitems, scalars, ⟨hscalars, hnames, -⟩, rfl⟩
        exact .mapping hentries (checkKeys_eq_ok_iff.mp hkeys) hflag hitems hscalars hnames
      · intro h
        cases h with
        | nothing heq => exact absurd heq hroot
        | mapping hentries' hkeys hflag hitems hscalars hnames =>
          cases hentries.symm.trans hentries'
          exact ⟨(), checkKeys_eq_ok_iff.mpr hkeys, _, hflag, _, hitems, _,
            ⟨hscalars, hnames, fun _ _ => List.not_mem_nil⟩, rfl⟩

/-- With names that are all different, the table leads from each name to its own scalar. -/
theorem scalar?_eq_some_iff {o : CompileOptions} {s : CustomScalar}
    (hnames : (o.scalars.map CustomScalar.name).Nodup) :
    o.scalar? name = some s ↔ s ∈ o.scalars ∧ s.name = name := by
  rw [CompileOptions.scalar?]
  constructor
  · intro h
    exact ⟨List.mem_reverse.mp (List.mem_of_find?_eq_some h), by simpa using List.find?_some h⟩
  · rintro ⟨hmem, rfl⟩
    cases hfind : o.scalars.reverse.find? fun t => t.name = s.name with
    | none => simpa using List.find?_eq_none.mp hfind s (List.mem_reverse.mpr hmem)
    | some t =>
      have ht := List.mem_reverse.mp (List.mem_of_find?_eq_some hfind)
      have hname : t.name = s.name := by simpa using List.find?_some hfind
      rw [List.inj_on_of_nodup_map hnames ht hmem hname]

theorem Configures.nodup_names {o : CompileOptions} (h : Configures d o) :
    (o.scalars.map CustomScalar.name).Nodup := by
  cases h with
  | nothing => exact List.nodup_nil
  | mapping _ _ _ _ _ hnames => exact hnames

/-! ### What is refused is reported -/

theorem isTextKey_iff_of_before {a b : Atom} {before : Bool} (h : a.before b = .ok before) :
    IsTextKey a ↔ IsTextKey b := by
  cases a <;> cases b <;> simp_all [Atom.before, Atom.number?, IsTextKey]

/-- Keys that can be put in order are all texts, or none of them is. -/
theorem isTextKey_iff_of_ordered {key : Atom} {keys : List Atom}
    (h : disorder? (key :: keys) = none) : ∀ k ∈ keys, IsTextKey k ↔ IsTextKey key := by
  induction keys generalizing key with
  | nil => nofun
  | cons next keys ih =>
    rw [disorder?] at h
    cases hbefore : next.before key with
    | error disorder => rw [hbefore] at h; cases h
    | ok before =>
      rw [hbefore] at h
      have hnext := isTextKey_iff_of_before hbefore
      exact List.forall_mem_cons.mpr ⟨hnext, fun k hk => (ih h k hk).trans hnext⟩

/-- Texts can be put in order. -/
theorem ordered_of_texts {keys : List Atom} (h : ∀ k ∈ keys, IsTextKey k) :
    disorder? keys = none := by
  induction keys with
  | nil => rfl
  | cons key keys ih =>
    obtain ⟨⟨text, rfl⟩, hkeys⟩ := List.forall_mem_cons.mp h
    cases keys with
    | nil => rfl
    | cons next keys =>
      obtain ⟨text', rfl⟩ := hkeys _ List.mem_cons_self
      exact ih hkeys

theorem least_mem (key : Atom) (keys : List Atom) : least key keys ∈ key :: keys := by
  induction keys generalizing key with
  | nil => exact List.mem_cons_self
  | cons next keys ih =>
    rw [least, List.foldl_cons, ← least]
    split
    · exact List.mem_cons_of_mem _ (ih next)
    · exact List.cons_subset_cons key (List.subset_cons_self next keys) (ih key)

/-- **Unknown keys are reported** when all of them are texts. -/
theorem isReported_unknownFault {key : Atom} {keys : List Atom} :
    (ConfigError.mk label (unknownFault key keys)).isReported = true ↔
      ∀ k ∈ key :: keys, IsTextKey k := by
  unfold unknownFault
  split
  · next disorder hdisorder =>
    refine ⟨nofun, fun htexts => ?_⟩
    rw [ordered_of_texts htexts] at hdisorder
    cases hdisorder
  · next hordered =>
    have hleast : ∀ k ∈ key :: keys, IsTextKey k ↔ IsTextKey (least key keys) := by
      have hall : ∀ k ∈ key :: keys, IsTextKey k ↔ IsTextKey key :=
        List.forall_mem_cons.mpr ⟨Iff.rfl, isTextKey_iff_of_ordered hordered⟩
      exact fun k hk => (hall k hk).trans (hall _ (least_mem key keys)).symm
    split
    · next text htext => exact ⟨fun _ k hk => (hleast k hk).mpr ⟨text, htext⟩, fun _ => rfl⟩
    · next other hother =>
      refine ⟨nofun, fun htexts => ?_⟩
      obtain ⟨text, htext⟩ := htexts _ (least_mem key keys)
      exact absurd htext (hother text)

theorem checkKeys_eq_error (h : checkKeys entries = .error fault) :
    (ConfigError.mk label fault).isReported = true ↔ ∀ e ∈ entries, IsTextKey e.1 := by
  unfold checkKeys at h
  split at h
  · cases h
  · next key keys hkeys =>
    cases h
    rw [isReported_unknownFault, ← hkeys]
    constructor
    · intro htexts e he
      by_cases hknown : isKnownKey e.1 = true
      · exact (isKnownKey_iff.mp hknown).elim (fun heq => ⟨_, heq⟩) fun heq => ⟨_, heq⟩
      · exact htexts e.1 (List.mem_filter.mpr ⟨List.mem_map_of_mem he, by simpa using hknown⟩)
    · intro htexts k hk
      obtain ⟨e, he, rfl⟩ := List.mem_map.mp (List.mem_filter.mp hk).1
      exact htexts e he

/-- Behind its keys, whatever is wrong with a mapping is reported. -/
theorem isReported_of_enumsFlag (h : enumsFlag entries = .error fault) :
    (ConfigError.mk label fault).isReported = true := by
  unfold enumsFlag at h
  split at h <;> cases h
  rfl

theorem isReported_of_scalarList (h : scalarList d entries = .error fault) :
    (ConfigError.mk label fault).isReported = true := by
  unfold scalarList at h
  split at h
  · cases h
  · split at h <;> cases h
    rfl

theorem isReported_of_scalarsFrom {index : Nat} {seen : List String} {items : List Datum}
    (h : scalarsFrom d index seen items = .error fault) :
    (ConfigError.mk label fault).isReported = true := by
  induction items generalizing index seen with
  | nil => cases h
  | cons entry items ih =>
    rw [scalarsFrom, bind_eq_error] at h
    rcases h with h | ⟨s, -, h⟩
    · cases hs : CustomScalar.ofDatum d entry with
      | ok s => rw [hs] at h; cases h
      | error entryFault =>
        rw [hs] at h
        cases h
        rfl
    · by_cases hseen : s.name ∈ seen
      · simp only [List.contains_eq_mem, hseen, decide_true, if_true] at h
        cases h
        rfl
      · simp only [List.contains_eq_mem, hseen, decide_false, Bool.false_eq_true, if_false] at h
        rcases bind_eq_error.mp h with h | ⟨rest, -, h⟩
        · exact ih h
        · cases h

/-- **What is refused is reported** as a fault of the file, unless there is a key that is no text. -/
theorem isReported_of_ofData (h : CompileOptions.ofData d = .error fault) :
    (ConfigError.mk label fault).isReported = true ↔ ¬HasOddKey d := by
  unfold CompileOptions.ofData at h
  split at h
  · cases h
  · split at h
    · next hnone =>
      cases h
      refine ⟨fun _ => ?_, fun _ => rfl⟩
      rintro ⟨entries, hentries, -⟩
      cases hnone.symm.trans hentries
    · next entries hentries =>
      have hodd : HasOddKey d ↔ ∃ e ∈ entries, ¬IsTextKey e.1 := by
        simp [HasOddKey, hentries]
      rw [hodd]
      rcases bind_eq_error.mp h with hkeys | ⟨_, hkeys, h⟩
      · simpa using checkKeys_eq_error hkeys
      · have htexts : ∀ e ∈ entries, IsTextKey e.1 := fun e he =>
          (checkKeys_eq_ok_iff.mp hkeys e he).elim (fun heq => ⟨_, heq⟩) fun heq => ⟨_, heq⟩
        refine iff_of_true ?_ fun ⟨e, he, hno⟩ => hno (htexts e he)
        rcases bind_eq_error.mp h with hflag | ⟨flag, -, h⟩
        · exact isReported_of_enumsFlag hflag
        rcases bind_eq_error.mp h with hitems | ⟨items, -, h⟩
        · exact isReported_of_scalarList hitems
        rcases bind_eq_error.mp h with hscalars | ⟨scalars, -, h⟩
        · exact isReported_of_scalarsFrom hscalars
        · cases h

/-- **A configuration is accepted exactly when it is well formed.** Then the options are those of
the data and the table leads from each name to its own scalar. Data that are refused are reported as
a fault of the file, unless they are a mapping with a key that is no text. -/
theorem configuration_exact (d : Data) :
    (∀ o, CompileOptions.ofData d = .ok o ↔ Configures d o) ∧
    (∀ o, Configures d o → ∀ name s, o.scalar? name = some s ↔ s ∈ o.scalars ∧ s.name = name) ∧
    ((¬∃ o, Configures d o) → ∃ fault, CompileOptions.ofData d = .error fault ∧
      ∀ label, (ConfigError.mk label fault).isReported = true ↔ ¬HasOddKey d) ∧
    ∀ label text, Yaml.read text = .ok d → CompileOptions.ofText label text =
      (CompileOptions.ofData d).mapError (ConfigError.mk label) := by
  refine ⟨fun o => ofData_eq_ok_iff, fun o h name s => scalar?_eq_some_iff h.nodup_names,
    fun hnone => ?_, fun label text hread => ?_⟩
  · cases h : CompileOptions.ofData d with
    | ok o => exact absurd ⟨o, ofData_eq_ok_iff.mp h⟩ hnone
    | error fault => exact ⟨fault, rfl, fun label => isReported_of_ofData h⟩
  · rw [CompileOptions.ofText, hread]
    rfl

/-- Data are compared by their roots and cells. -/
theorem read_eq_ok {source : String} (h : (Yaml.read source).toOption.map
    (fun x => (x.root, x.cells)) = some (d.root, d.cells)) : Yaml.read source = .ok d := by
  cases hread : Yaml.read source with
  | error fault => rw [hread] at h; cases h
  | ok x =>
    rw [hread] at h
    cases x
    cases d
    cases h
    rfl

/-- Two scalars, one of them with a description, and the flag. -/
def sampleConfiguration : String :=
  "custom-scalars: [JSON, \x7bname: Url, description: An address\x7d]\nstring-unions-as-enums: yes"

def sampleData : Data :=
  ⟨.ref 0, #[
    .mapping [(.str scalarsKey, .ref 1), (.str enumsKey, .atom (.bool true))],
    .list [.atom (.str "JSON"), .ref 2],
    .mapping [(.str nameKey, .atom (.str "Url")), (.str descriptionKey, .atom (.str "An address"))]]⟩

def sampleOptions : CompileOptions :=
  ⟨[.own "JSON" none none, .own "Url" (some "An address") none], none, true⟩

/-- A list where a mapping is wanted. -/
def listData : Data := ⟨.ref 0, #[.list []]⟩

theorem configures_sampleData : Configures sampleData sampleOptions := by
  have hjson : Describes sampleData (.atom (.str "JSON")) (.own "JSON" none none) :=
    ofDatum_eq_ok_iff.mp (by decide +kernel)
  have hurl : Describes sampleData (.ref 2) (.own "Url" (some "An address") none) :=
    ofDatum_eq_ok_iff.mp (by decide +kernel)
  exact .mapping rfl (checkKeys_eq_ok_iff.mp (by decide +kernel))
    (enumsFlag_eq_ok_iff.mp (by decide +kernel)) (scalarList_eq_ok_iff.mp (by decide +kernel))
    (.cons hjson (.cons hurl .nil)) (by decide +kernel)

theorem configuration_exact_sampleData : Yaml.read sampleConfiguration = .ok sampleData ∧
    Configures sampleData sampleOptions ∧
    sampleOptions.scalar? "Url" = some (.own "Url" (some "An address") none) ∧
    CompileOptions.ofText "<string>" sampleConfiguration = .ok sampleOptions ∧
    (¬∃ o, Configures listData o) ∧ ∃ fault, CompileOptions.ofData listData = .error fault ∧
      (ConfigError.mk "<string>" fault).isReported = true := by
  obtain ⟨haccepts, htable, -, htext⟩ := configuration_exact sampleData
  have hread : Yaml.read sampleConfiguration = .ok sampleData := read_eq_ok (by decide +kernel)
  refine ⟨hread, configures_sampleData,
    (htable _ configures_sampleData _ _).mpr ⟨.tail _ (.head _), rfl⟩, ?_, ?_⟩
  · rw [htext _ _ hread, (haccepts _).mpr configures_sampleData]
    rfl
  · obtain ⟨haccepts, -, hrefuses, -⟩ := configuration_exact listData
    have hnone : ¬∃ o, Configures listData o := by
      rintro ⟨o, h⟩
      cases (haccepts o).mpr h
    obtain ⟨fault, hfault, hreported⟩ := hrefuses hnone
    refine ⟨hnone, fault, hfault, (hreported _).mpr ?_⟩
    rintro ⟨entries, hentries, -⟩
    cases hentries

/-- A key that is a number. -/
def numberedData : Data := ⟨.ref 0, #[.mapping [(.int 1, .atom (.str "x"))]]⟩

/-- **A key that is no text escapes**, though the data are no configuration. -/
theorem escapes_numberedData : Yaml.read "1: x" = .ok numberedData ∧
    (¬∃ o, Configures numberedData o) ∧
    CompileOptions.ofText "<string>" "1: x" = .error ⟨"<string>", .unlistedKey "int"⟩ ∧
    (ConfigError.mk "<string>" (.unlistedKey "int")).isReported = false := by
  have hread : Yaml.read "1: x" = .ok numberedData := read_eq_ok (by decide +kernel)
  refine ⟨hread, ?_, by rw [CompileOptions.ofText, hread]; rfl, rfl⟩
  rintro ⟨o, h⟩
  cases ofData_eq_ok_iff.mpr h

end DeclaredSchema
