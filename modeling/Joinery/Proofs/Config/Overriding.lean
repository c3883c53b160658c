import Joinery.Config.Loading
import Joinery.Proofs.Schema.Decoded

/-!
# Overridden configurations

## What an override changes

An override writes a configuration as data, changes the data and reads it again.  A configuration
that was read without faults is not changed by this: what a check has let pass it lets pass once
more, and an extension that has its dot does not get another one.  So an override is refused for
faults of the aliases or of the number that are given with it and for no others, and an override
that is not refused changes what was given and nothing else.
-/

namespace Joinery

open Decode Decoded
open Config (mapping tableValue replaced)

/-!
# Resolving
-/

namespace ResolverConfig

theorem aliasFault?_eq_none_iff (name : String) :
    aliasFault? name = none <-> name ≠ "" ∧ name.toList.head? ≠ some '.' := by
  unfold aliasFault?
  by_cases hempty : name = ""
  · subst hempty
    simp
  · by_cases hdot : name.toList.head? = some '.'
    · simp [hempty, hdot]
    · simp [hempty, hdot]

theorem head?_dotted (extension : String) : (dotted extension).toList.head? = some '.' := by
  unfold dotted
  split
  · assumption
  · rw [String.toList_append]
    rfl

/-- What all resolver configurations have in common that were read without faults. -/
structure IsChecked (r : ResolverConfig) : Prop where
  faultless : r.aliases.keys.findSome? aliasFault? = none
  extended : r.extensions.isEmpty = false
  dotted : forall extension, extension ∈ r.extensions -> extension.toList.head? = some '.'
  positive : 1 ≤ r.reexportDepth
  bounded : (r.reexportDepth : Int) ≤ deepest

theorem isChecked_default : IsChecked {} := by
  constructor <;> decide

theorem faultless_of_readAliases {v : Value} {table : Table String}
    (h : readAliases v = .value table) : table.keys.findSome? aliasFault? = none := by
  rcases exists_of_check h with ⟨entries, _, h⟩
  dsimp only at h
  split at h
  · cases h
  · next hfaultless =>
      cases h
      exact hfaultless

theorem dotted_of_readExtensions {v : Value} {extensions : List String}
    (h : readExtensions v = .value extensions) :
    extensions.isEmpty = false ∧
      forall extension, extension ∈ extensions -> extension.toList.head? = some '.' := by
  rcases exists_of_check h with ⟨given, _, h⟩
  split at h
  · cases h
  · next hgiven =>
      cases h
      constructor
      · rw [List.isEmpty_map]
        exact Bool.eq_false_iff.mpr hgiven
      · intro extension hextension
        rcases List.mem_map.mp hextension with ⟨text, _, rfl⟩
        exact head?_dotted text

theorem bounds_of_readDepth {v : Value} {depth : Nat} (h : readDepth v = .value depth) :
    1 ≤ depth ∧ (depth : Int) ≤ deepest := by
  rcases exists_of_map h with ⟨i, hinteger, rfl⟩
  rcases le_of_atMost hinteger with ⟨hmost, hrest⟩
  have hleast := le_of_atLeast hrest
  omega

theorem isChecked_of_decode {v : Value} {r : ResolverConfig} (h : decode v = .value r) :
    IsChecked r := by
  rcases exists_of_model h with ⟨fields, _, hfour⟩
  rcases exists_of_seq hfour with ⟨_, usesTsconfig, hthree, _, rfl⟩
  rcases exists_of_seq hthree with ⟨_, depth, htwo, hdepth, rfl⟩
  rcases exists_of_seq htwo with ⟨_, extensions, hone, hextensions, rfl⟩
  rcases exists_of_map hone with ⟨aliases, haliases, rfl⟩
  have hdefault := isChecked_default
  have hfaultless := of_defaulted haliases hdefault.faultless fun _ _ => faultless_of_readAliases
  have hdots := of_defaulted hextensions ⟨hdefault.extended, hdefault.dotted⟩
    fun _ _ => dotted_of_readExtensions
  have hbounds := of_defaulted hdepth ⟨hdefault.positive, hdefault.bounded⟩
    fun _ _ => bounds_of_readDepth
  exact ⟨hfaultless, hdots.1, hdots.2, hbounds.1, hbounds.2⟩

theorem readAliases_tableValue (table : Table String) :
    readAliases (tableValue table) =
      barring ((table.keys.findSome? aliasFault?).toList.map (Fault.mk [])) table := by
  have htable : Table.ofList table.entries = table :=
    Table.ext (Table.entries_ofList table.distinct)
  unfold readAliases
  rw [Table.mappingOf_tableValue]
  dsimp only [Decoded.check]
  rw [htable]
  cases table.keys.findSome? aliasFault? <;> rfl

variable {r : ResolverConfig}

theorem IsChecked.readExtensions_eq (h : r.IsChecked) :
    readExtensions (.list (r.extensions.map .text)) = .value r.extensions := by
  have hdotted : r.extensions.map ResolverConfig.dotted = r.extensions := by
    apply (List.map_congr_left _).trans (List.map_id _)
    intro extension hextension
    exact if_pos (h.dotted extension hextension)
  unfold readExtensions
  rw [list_texts]
  dsimp only [Decoded.check]
  rw [if_neg (by simp [h.extended]), hdotted]

theorem IsChecked.readDepth_eq (h : r.IsChecked) :
    readDepth (.int r.reexportDepth) = .value r.reexportDepth := by
  have hleast : atLeast 1 integer (.int r.reexportDepth) = .value (r.reexportDepth : Int) :=
    if_pos (by exact_mod_cast h.positive)
  have hmost : atMost deepest (atLeast 1 integer) (.int r.reexportDepth) =
      .value (r.reexportDepth : Int) := by
    unfold atMost
    rw [hleast]
    exact if_pos h.bounded
  unfold readDepth
  rw [hmost]
  rfl

theorem IsChecked.decode_fields (h : r.IsChecked) (table : Table String) (usesTsconfig : Bool) :
    decode (mapping (Config.resolverFields
        { r with aliases := table, usesTsconfig := usesTsconfig })) =
      barring ((table.keys.findSome? aliasFault?).toList.map (Fault.mk [.key "aliases"]))
        { r with aliases := table, usesTsconfig := usesTsconfig } := by
  show ResolverConfig.mk <$> within (.key "aliases") (readAliases (tableValue table))
    <*> within (.key "source_extensions") (readExtensions (.list (r.extensions.map .text)))
    <*> within (.key "max_reexport_depth") (readDepth (.int r.reexportDepth))
    <*> within (.key "use_tsconfig_paths") (bool (.bool usesTsconfig)) = _
  rw [readAliases_tableValue, h.readExtensions_eq, h.readDepth_eq]
  cases table.keys.findSome? aliasFault? <;> rfl

end ResolverConfig

/-!
# The steps of an assembly
-/

namespace Options

theorem passes_of_decode {v : Value} {o : Options} (h : decode v = .value o) : 1 ≤ o.maxPasses := by
  rcases exists_of_model h with ⟨fields, _, height⟩
  rcases exists_of_seq height with ⟨_, _, hseven, _, rfl⟩
  rcases exists_of_seq hseven with ⟨_, _, hsix, _, rfl⟩
  rcases exists_of_seq hsix with ⟨_, passes, hfive, hpasses, rfl⟩
  rcases exists_of_seq hfive with ⟨_, _, hfour, _, rfl⟩
  rcases exists_of_seq hfour with ⟨_, _, hthree, _, rfl⟩
  rcases exists_of_seq hthree with ⟨_, _, htwo, _, rfl⟩
  rcases exists_of_seq htwo with ⟨_, _, hone, _, rfl⟩
  rcases exists_of_map hone with ⟨_, _, rfl⟩
  have hpositive : 1 ≤ passes := by
    apply of_defaulted hpasses (by decide)
    intro v passes hread
    rcases exists_of_map hread with ⟨i, hinteger, rfl⟩
    have hleast := le_of_atLeast hinteger
    omega
  exact hpositive

theorem readPasses_int (passes : Int) :
    readPasses (.int passes) =
      barring (if 1 ≤ passes then [] else [⟨[], .atLeast 1⟩]) passes.toNat := by
  have hread : readPasses (.int passes) =
      (if 1 ≤ passes then Decoded.value passes else fault (.atLeast 1)).map Int.toNat :=
    rfl
  rw [hread]
  split <;> rfl

/-- With another number of passes the steps are read as they were written, unless it is too low. -/
theorem decode_fields (o : Options) (passes : Int) :
    decode (mapping (replaced "max_validation_passes" (.int passes) (Config.optionFields o))) =
      barring (if 1 ≤ passes then [] else [⟨[.key "max_validation_passes"], .atLeast 1⟩])
        { o with maxPasses := passes.toNat } := by
  show Options.mk <$> within (.key "validate_imports") (bool (.bool o.validateImports))
    <*> within (.key "validate_exports") (bool (.bool o.validateExports))
    <*> within (.key "extract_dependencies") (bool (.bool o.extractDependencies))
    <*> within (.key "generate_missing_files") (bool (.bool o.generateMissingFiles))
    <*> within (.key "auto_fix_exports") (bool (.bool o.autoFixExports))
    <*> within (.key "max_validation_passes") (readPasses (.int passes))
    <*> within (.key "strict_content") (bool (.bool o.strictContent))
    <*> within (.key "deduplicate_plurals") (bool (.bool o.deduplicatePlurals)) = _
  rw [readPasses_int]
  split <;> rfl

end Options

/-!
# Whole configurations
-/

namespace Config

/-- What all configurations have in common that were read without faults. -/
structure IsChecked (config : Config) : Prop where
  resolver : config.resolver.IsChecked
  passes : 1 ≤ config.options.maxPasses
  distinct : config.phases.eraseDups.length = config.phases.length

theorem isChecked_of_decode {v : Value} {config : Config} (h : decode v = .value config) :
    config.IsChecked := by
  rcases exists_of_model h with ⟨fields, _, hfive⟩
  rcases exists_of_seq hfive with ⟨_, logLevel, hfour, _, rfl⟩
  rcases exists_of_seq hfour with ⟨_, phases, hthree, hphases, rfl⟩
  rcases exists_of_seq hthree with ⟨_, options, htwo, hoptions, rfl⟩
  rcases exists_of_seq htwo with ⟨_, resolver, hone, hresolver, rfl⟩
  rcases exists_of_map hone with ⟨projectName, _, rfl⟩
  have hpasses : 1 ≤ options.maxPasses :=
    of_defaulted (P := fun o : Options => 1 ≤ o.maxPasses) hoptions (by decide)
      fun _ _ => Options.passes_of_decode
  have hdistinct : phases.eraseDups.length = phases.length := by
    apply of_defaulted (P := fun labels => labels.eraseDups.length = labels.length) hphases
      (by decide)
    intro v labels hread
    rcases exists_of_check hread with ⟨given, _, hgiven⟩
    split at hgiven
    · next hdistinct =>
        cases hgiven
        exact hdistinct
    · cases hgiven
  constructor
  · exact of_defaulted hresolver ResolverConfig.isChecked_default
      fun _ _ => ResolverConfig.isChecked_of_decode
  · exact hpasses
  · exact hdistinct

variable {config : Config}

theorem IsChecked.decode_valueOf (h : config.IsChecked) (resolver options : List (String × Value)) :
    decode (valueOf config resolver options) =
      Config.mk config.projectName <$>
        within (.key "resolver") (ResolverConfig.decode (mapping resolver))
        <*> within (.key "assembly") (Options.decode (mapping options))
        <*> .value config.phases <*> .value config.logLevel := by
  have hphases : readPhases (.list (config.phases.map .text)) = .value config.phases := by
    unfold readPhases
    rw [list_texts]
    exact if_pos h.distinct
  show Config.mk <$>
    within (.key "project") (readName (mapping [("name", .text config.projectName)]))
    <*> within (.key "resolver") (ResolverConfig.decode (mapping resolver))
    <*> within (.key "assembly") (Options.decode (mapping options))
    <*> within (.key "phases") (readPhases (.list (config.phases.map .text)))
    <*> within (.key "log_level") (string (.text config.logLevel)) = _
  rw [hphases]
  cases ResolverConfig.decode (mapping resolver) <;>
    cases Options.decode (mapping options) <;> rfl

/-!
# Overrides
-/

def resolverWith (config : Config) : Option (Table String) -> ResolverConfig
  | none => config.resolver
  | some aliases => { config.resolver with aliases := aliases, usesTsconfig := false }

def optionsWith (config : Config) : Option Int -> Options
  | none => config.options
  | some passes => { config.options with maxPasses := passes.toNat }

def optionFieldsWith (config : Config) : Option Int -> List (String × Value)
  | none => optionFields config.options
  | some passes => replaced "max_validation_passes" (.int passes) (optionFields config.options)

def aliasFaults (aliases : Option (Table String)) : List Fault :=
  (aliases.bind fun table => table.keys.findSome? ResolverConfig.aliasFault?).toList.map
    (Fault.mk [.key "resolver", .key "aliases"])

def passFaults (passes : Option Int) : List Fault :=
  if passes.all fun n => 1 ≤ n then []
  else [⟨[.key "assembly", .key "max_validation_passes"], .atLeast 1⟩]

variable {aliases : Option (Table String)} {passes : Option Int}

theorem aliasFaults_eq_nil_iff :
    aliasFaults aliases = [] <-> ¬exists table name, aliases = some table ∧ name ∈ table.keys ∧
      (name = "" ∨ name.toList.head? = some '.') := by
  unfold aliasFaults
  rw [List.map_eq_nil_iff, Option.toList_eq_nil_iff]
  cases aliases with
  | none =>
      simp
  | some table =>
      rw [Option.bind_some, List.findSome?_eq_none_iff]
      simp only [ResolverConfig.aliasFault?_eq_none_iff, Option.some.injEq, not_exists, not_and,
        not_or]
      constructor
      · intro h other name hsame hname
        subst hsame
        exact h name hname
      · intro h name hname
        exact h table name rfl hname

theorem passFaults_eq_nil_iff :
    passFaults passes = [] <-> ¬exists n, passes = some n ∧ n < 1 := by
  unfold passFaults
  cases passes with
  | none =>
      simp
  | some n =>
      simp

theorem override_eq_decode (config : Config) (aliases : Option (Table String))
    (passes : Option Int) :
    config.override aliases passes =
      decode (valueOf config (resolverFields (config.resolverWith aliases))
        (config.optionFieldsWith passes)) := by
  cases aliases <;> cases passes <;> rfl

theorem IsChecked.decode_resolverWith (h : config.IsChecked) :
    within (.key "resolver")
        (ResolverConfig.decode (mapping (resolverFields (config.resolverWith aliases)))) =
      barring (aliasFaults aliases) (config.resolverWith aliases) := by
  cases aliases with
  | none =>
      have hread := h.resolver.decode_fields config.resolver.aliases config.resolver.usesTsconfig
      rw [h.resolver.faultless] at hread
      exact congrArg (within (.key "resolver")) hread
  | some table =>
      have hread := h.resolver.decode_fields table false
      refine (congrArg (within (.key "resolver")) hread).trans ?_
      unfold aliasFaults
      rw [Option.bind_some]
      cases table.keys.findSome? ResolverConfig.aliasFault? <;> rfl

theorem IsChecked.decode_optionsWith (h : config.IsChecked) (passes : Option Int) :
    within (.key "assembly") (Options.decode (mapping (config.optionFieldsWith passes))) =
      barring (passFaults passes) (config.optionsWith passes) := by
  cases passes with
  | none =>
      have hread := config.options.decode_fields config.options.maxPasses
      rw [if_pos (by exact_mod_cast h.passes)] at hread
      exact congrArg (within (.key "assembly")) hread
  | some n =>
      refine (congrArg (within (.key "assembly")) (config.options.decode_fields n)).trans ?_
      unfold passFaults
      by_cases hn : 1 ≤ n
      · simp [hn, barring, within, optionsWith]
      · simp [hn, barring, within]

theorem IsChecked.override_eq (h : config.IsChecked) :
    config.override aliases passes =
      barring (aliasFaults aliases ++ passFaults passes)
        { config with
          resolver := config.resolverWith aliases
          options := config.optionsWith passes } := by
  have hvalue : forall {α : Type} (a : α), Decoded.value a = barring [] a := fun _ => rfl
  rw [override_eq_decode, h.decode_valueOf, h.decode_resolverWith, h.decode_optionsWith,
    map_barring, seq_barring, hvalue, hvalue, seq_barring, seq_barring, List.append_nil,
    List.append_nil]

/-- An alias is empty or begins with a dot, or the number of passes is below one. -/
def IsRefused (aliases : Option (Table String)) (passes : Option Int) : Prop :=
  (exists table name, aliases = some table ∧ name ∈ table.keys ∧
      (name = "" ∨ name.toList.head? = some '.')) ∨
    exists n, passes = some n ∧ n < 1

theorem faults_eq_nil_iff :
    aliasFaults aliases ++ passFaults passes = [] <-> ¬IsRefused aliases passes := by
  unfold IsRefused
  rw [List.append_eq_nil_iff, aliasFaults_eq_nil_iff, passFaults_eq_nil_iff, not_or]

/--
A configuration that was read without faults can be overridden unless what is given has a fault.
Then the aliases that are given are in force, those of the project's own file are not preferred
any more, the number of passes is the one that is given, and all else is as it was.  Written and
read again the configuration is the same.
-/
theorem override_frame {v : Value} (hread : decode v = .value config) :
    ((exists error, ofDecoded (config.override aliases passes) = .error error) <->
        IsRefused aliases passes) ∧
      (IsRefused aliases passes -> ofDecoded (config.override aliases passes) =
        .error (.invalid (aliasFaults aliases ++ passFaults passes))) ∧
      (¬IsRefused aliases passes -> ofDecoded (config.override aliases passes) =
        .ok { config with
          resolver := config.resolverWith aliases
          options := config.optionsWith passes }) ∧
      ofDecoded (decode config.toValue) = .ok config := by
  have hchecked := isChecked_of_decode hread
  have hrefused : IsRefused aliases passes -> ofDecoded (config.override aliases passes) =
      .error (.invalid (aliasFaults aliases ++ passFaults passes)) := by
    intro h
    rw [hchecked.override_eq, barring, if_neg (mt faults_eq_nil_iff.mp (not_not.mpr h))]
    rfl
  have hgranted : ¬IsRefused aliases passes -> ofDecoded (config.override aliases passes) =
      .ok { config with
        resolver := config.resolverWith aliases
        options := config.optionsWith passes } := by
    intro h
    rw [hchecked.override_eq, barring, if_pos (faults_eq_nil_iff.mpr h)]
    rfl
  constructor
  · constructor
    · rintro ⟨error, herror⟩
      by_contra hnot
      rw [hgranted hnot] at herror
      cases herror
    · exact fun h => ⟨_, hrefused h⟩
  constructor
  · exact hrefused
  constructor
  · exact hgranted
  · have hsame : config.override none none = .value config := hchecked.override_eq
    exact congrArg ofDecoded hsame

/-- An extension gets its dot once; aliases and passes are overridden, or refused for both. -/
theorem override_frame_dotted :
    let config : Config :=
      { resolver := { extensions := [".ts", ".vue"] }
        phases := ["models", "pages"] }
    let sound : Table String := { entries := [("~/", "lib/")] }
    let dotted : Table String := { entries := [("./", "lib/")] }
    decode (mapping
        [("resolver", mapping [("source_extensions", .list [.text "ts", .text ".vue"])]),
          ("phases", .list [.text "models", .text "pages"])]) = .value config ∧
      ofDecoded (config.override (some sound) (some 5)) =
        .ok { config with
          resolver := { config.resolver with aliases := sound, usesTsconfig := false }
          options := { config.options with maxPasses := 5 } } ∧
      ofDecoded (config.override (some dotted) (some 0)) =
        .error (.invalid
          [⟨[.key "resolver", .key "aliases"],
              .rule "alias prefix './' collides with relative imports"⟩,
            ⟨[.key "assembly", .key "max_validation_passes"], .atLeast 1⟩]) := by
  intro config sound dotted
  have hread : decode (mapping
      [("resolver", mapping [("source_extensions", .list [.text "ts", .text ".vue"])]),
        ("phases", .list [.text "models", .text "pages"])]) = .value config :=
    rfl
  have hgranted : ¬IsRefused (some sound) (some 5) := faults_eq_nil_iff.mp (by decide)
  have hrefused : IsRefused (some dotted) (some 0) := Or.inr ⟨0, rfl, by decide⟩
  constructor
  · exact hread
  constructor
  · exact (override_frame hread).2.2.1 hgranted
  · exact (override_frame hread).2.1 hrefused

end Config
end Joinery
