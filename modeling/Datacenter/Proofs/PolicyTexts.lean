import Mathlib.Data.List.Count
import Mathlib.Data.List.Nodup
import Mathlib.Data.List.TakeWhile
import Datacenter.Policy.Registry

/-!
# Written choices

A choice is written as its name and its options in brackets, `name[first=1,second=2]`, with blanks
wherever they do not count. Reading it back gives the name, and for each option its last value, so
the thresholds of a policy are the ones that its text gives.

Main statements: `Choice.ofText_written`, `OptionTable.get?_ofText_list` and
`written_choice_resolves`.
-/

namespace Datacenter

namespace Text

/-- A text of which neither the first nor the last character is blank. -/
structure Tight (cs : List Char) : Prop where
  head : ∀ c, cs.head? = some c → isBlank c = false
  last : ∀ c, cs.getLast? = some c → isBlank c = false

instance (cs : List Char) : Decidable (Tight cs) :=
  decidable_of_iff
    ((cs.head?.all fun c => !isBlank c) = true ∧ (cs.getLast?.all fun c => !isBlank c) = true) <| by
      simp only [Option.all_eq_true, Bool.not_eq_true']
      exact ⟨fun h => ⟨h.1, h.2⟩, fun h => ⟨h.head, h.last⟩⟩

theorem dropWhile_of_head {p : Char → Bool} {cs : List Char}
    (h : ∀ c, cs.head? = some c → p c = false) : cs.dropWhile p = cs := by
  cases cs with
  | nil => rfl
  | cons c rest => simp [h c rfl]

theorem trim_padded {before cs after : List Char} (hbefore : ∀ c ∈ before, isBlank c = true)
    (hcs : Tight cs) (hafter : ∀ c ∈ after, isBlank c = true) :
    trim (before ++ cs ++ after) = cs := by
  have hback : ∀ c ∈ after.reverse, isBlank c = true := by simpa using hafter
  unfold trim
  rw [List.append_assoc, List.dropWhile_append_of_pos hbefore]
  cases cs with
  | nil =>
    have hall : after.dropWhile isBlank = [] := List.dropWhile_eq_nil_iff.mpr hafter
    simp [hall]
  | cons c rest =>
    have hfront : (c :: rest ++ after).dropWhile isBlank = c :: rest ++ after := by
      simp [hcs.head c rfl]
    have hlast : (c :: rest).reverse.dropWhile isBlank = (c :: rest).reverse := by
      apply dropWhile_of_head
      intro d hd
      rw [List.head?_reverse] at hd
      exact hcs.last d hd
    rw [hfront, List.reverse_append, List.dropWhile_append_of_pos hback, hlast,
      List.reverse_reverse]

theorem splitFirst_append {sep : Char} {before : List Char} (h : sep ∉ before)
    (after : List Char) : splitFirst sep (before ++ sep :: after) = some (before, after) := by
  induction before with
  | nil => simp [splitFirst]
  | cons c cs ih =>
    simp only [List.mem_cons, not_or] at h
    simp [splitFirst, Ne.symm h.1, ih h.2]

theorem splitAll_eq_splitOn (sep : Char) (cs : List Char) : splitAll sep cs = cs.splitOn sep := by
  induction cs with
  | nil => rfl
  | cons c rest ih =>
    rw [splitAll, List.splitOn_cons_eq_if_modifyHead, ih]
    by_cases hc : c = sep
    · simp [hc]
    · cases hrest : rest.splitOn sep with
      | nil => exact absurd hrest (List.splitOn_ne_nil sep rest)
      | cons part parts => simp [hc]

end Text

/-! ### Written options -/

/-- A text with blanks around it. -/
structure Padded where
  before : List Char
  text : String
  after : List Char
  blank_before : ∀ c ∈ before, Text.isBlank c = true
  tight : Text.Tight text.toList
  blank_after : ∀ c ∈ after, Text.isBlank c = true

namespace Padded

def written (p : Padded) : List Char := p.before ++ p.text.toList ++ p.after

theorem trim_written (p : Padded) : String.ofList (Text.trim p.written) = p.text := by
  rw [written, Text.trim_padded p.blank_before p.tight p.blank_after, String.ofList_toList]

theorem not_mem_written {p : Padded} {c : Char} (hblank : Text.isBlank c = false)
    (h : c ∉ p.text.toList) : c ∉ p.written := by
  have hbefore : c ∉ p.before := by
    intro hmem
    simp [p.blank_before c hmem] at hblank
  have hafter : c ∉ p.after := by
    intro hmem
    simp [p.blank_after c hmem] at hblank
  simp [written, hbefore, h, hafter]

end Padded

/-- A name without equals signs and a value, both without commas and closing brackets. -/
structure WrittenOption where
  name : Padded
  value : Padded
  name_no_equals : '=' ∉ name.text.toList
  name_no_comma : ',' ∉ name.text.toList
  name_no_bracket : ']' ∉ name.text.toList
  value_no_comma : ',' ∉ value.text.toList
  value_no_bracket : ']' ∉ value.text.toList

namespace WrittenOption

def written (o : WrittenOption) : List Char := o.name.written ++ '=' :: o.value.written

def pair (o : WrittenOption) : String × String := (o.name.text, o.value.text)

theorem no_comma (o : WrittenOption) : ',' ∉ o.written := by
  have hname := Padded.not_mem_written (by decide) o.name_no_comma
  have hvalue := Padded.not_mem_written (by decide) o.value_no_comma
  simp [written, hname, hvalue]

theorem no_bracket (o : WrittenOption) : ']' ∉ o.written := by
  have hname := Padded.not_mem_written (by decide) o.name_no_bracket
  have hvalue := Padded.not_mem_written (by decide) o.value_no_bracket
  simp [written, hname, hvalue]

theorem readPair_written (o : WrittenOption) : readPair o.written = some o.pair := by
  have hname := Padded.not_mem_written (by decide) o.name_no_equals
  simp only [readPair, written, Text.splitFirst_append hname, Option.map_some,
    Padded.trim_written, pair]

/-- The options, separated by commas. -/
def list (options : List WrittenOption) : List Char := [','].intercalate (options.map written)

theorem no_bracket_list (options : List WrittenOption) : ']' ∉ list options := by
  induction options with
  | nil => simp [list]
  | cons o rest ih =>
    cases rest with
    | nil => simpa [list] using o.no_bracket
    | cons next more =>
      simp only [list, List.map_cons, List.intercalate_cons_cons] at ih ⊢
      simp [o.no_bracket, ih]

/-- No option at all is written as nothing, and that is read as a part without an equals sign. -/
theorem filterMap_readPair (options : List WrittenOption) :
    (Text.splitAll ',' (list options)).filterMap readPair = options.map pair := by
  cases options with
  | nil => rfl
  | cons o rest =>
    have hcommas : ∀ part ∈ (o :: rest).map written, ',' ∉ part := by
      intro part hpart
      obtain ⟨p, -, rfl⟩ := List.mem_map.mp hpart
      exact p.no_comma
    have hread : readPair ∘ written = fun p => some p.pair := funext readPair_written
    rw [list, Text.splitAll_eq_splitOn, List.splitOn_intercalate ',' hcommas (by simp),
      List.filterMap_map, hread, List.filterMap_eq_map']

/-- The values of an option, in the order in which they are written. -/
def values (options : List WrittenOption) (key : String) : List String :=
  (options.filter fun o => o.name.text = key).map fun o => o.value.text

/-- The value that holds. -/
def lastValue (options : List WrittenOption) (key : String) : Option String :=
  (values options key).getLast?

theorem values_cons (o : WrittenOption) (rest : List WrittenOption) (key : String) :
    values (o :: rest) key
      = if o.name.text = key then o.value.text :: values rest key else values rest key := by
  by_cases hkey : o.name.text = key <;> simp [values, hkey]

theorem get?_foldl_insert (options : List WrittenOption) (t : OptionTable) (key : String) :
    ((options.map pair).foldl (fun t (name, value) => t.insert name value) t).get? key
      = (lastValue options key).or (t.get? key) := by
  induction options generalizing t with
  | nil => rfl
  | cons o rest ih =>
    rw [List.map_cons, List.foldl_cons, ih, lastValue, lastValue, values_cons, pair,
      Table.get?_insert]
    by_cases hkey : o.name.text = key
    · cases hlast : (values rest key).getLast? with
      | none => simp [hkey, List.getLast?_cons, hlast]
      | some value => simp [hkey, List.getLast?_cons, hlast]
    · simp [hkey, Ne.symm hkey]

/-- Options with distinct names may be written in any order. -/
theorem values_perm {options reordered : List WrittenOption} (h : reordered.Perm options)
    (hdistinct : (options.map fun o => o.name.text).Nodup) (key : String) :
    values reordered key = values options key := by
  have hperm : (values reordered key).Perm (values options key) := (h.filter _).map _
  have hshort : (values options key).length ≤ 1 := by
    have hcount := List.nodup_iff_count_le_one.mp hdistinct key
    rw [List.count, List.countP_map, List.countP_eq_length_filter] at hcount
    rw [values, List.length_map]
    simpa [Function.comp_def, beq_eq_decide] using hcount
  cases hvalues : values options key with
  | nil =>
    rw [hvalues] at hperm
    exact hperm.eq_nil
  | cons value more =>
    rw [hvalues] at hperm hshort
    have hmore : more = [] := by
      apply List.eq_nil_of_length_eq_zero
      simp only [List.length_cons] at hshort
      omega
    rw [hmore] at hperm ⊢
    exact List.perm_singleton.mp hperm

end WrittenOption

/-! ### Written choices -/

/-- The name with the options in brackets. -/
def writtenChoice (name : Padded) (options : List WrittenOption) : String :=
  String.ofList (name.written ++ '[' :: (WrittenOption.list options ++ [']']))

theorem Choice.ofText_written {name : Padded} (hname : '[' ∉ name.text.toList)
    (options : List WrittenOption) :
    Choice.ofText (writtenChoice name options)
      = ⟨name.text, some (String.ofList (WrittenOption.list options))⟩ := by
  have hopening : '[' ∉ name.written := Padded.not_mem_written (by decide) hname
  have hclosing : (WrittenOption.list options).filter (fun c => c ≠ ']')
      = WrittenOption.list options := by
    rw [List.filter_eq_self]
    intro c hc
    have hne : c ≠ ']' := by
      intro heq
      rw [heq] at hc
      exact WrittenOption.no_bracket_list options hc
    simpa using hne
  simp only [Choice.ofText, writtenChoice, String.toList_ofList, Text.splitFirst_append hopening,
    name.trim_written, List.filter_append, hclosing]
  simp

theorem OptionTable.get?_ofText_list (options : List WrittenOption) (key : String) :
    (OptionTable.ofText (String.ofList (WrittenOption.list options))).get? key
      = WrittenOption.lastValue options key := by
  rw [OptionTable.ofText, String.toList_ofList, WrittenOption.filterMap_readPair,
    WrittenOption.get?_foldl_insert]
  show (WrittenOption.lastValue options key).or (Table.empty.get? key) = _
  simp

namespace WrittenOption

/-- The last value of an option, read as a number, or the default. -/
def threshold (options : List WrittenOption) (key : String) (default : Float) :
    Except (PolicyError Float) Float :=
  match lastValue options key with
  | none => .ok default
  | some value =>
    match Decimal.readFloat? value with
    | some x => .ok x
    | none => .error (.invalidOption ⟨key, value⟩)

/-- Thresholds from the options where they are given, else from the defaults. -/
def thresholds (options : List WrittenOption) (defaults : Thresholds Float) :
    Except (PolicyError Float) (Thresholds Float) := do
  let upper ← threshold options "upper" defaults.upper
  let lower ← threshold options "lower" defaults.lower
  let chosen : Thresholds Float := { upper, lower }
  if chosen.valid then .ok chosen else .error (.invalidThresholds chosen)

end WrittenOption

namespace PolicyRegistry

variable {π : Type}

theorem threshold_ofText_list (options : List WrittenOption) (key : String) (default : Float) :
    threshold (OptionTable.ofText (String.ofList (WrittenOption.list options))) key default
      = WrittenOption.threshold options key default := by
  unfold threshold OptionTable.read WrittenOption.threshold
  rw [OptionTable.get?_ofText_list]
  cases WrittenOption.lastValue options key with
  | none => rfl
  | some value =>
    cases hvalue : Decimal.readFloat? value with
    | none => simp [hvalue]
    | some x => simp [hvalue]

theorem resolve_written (r : PolicyRegistry Float π) {name : Padded}
    (hname : '[' ∉ name.text.toList) (options : List WrittenOption) (defaults : Thresholds Float) :
    r.resolve (writtenChoice name options) defaults
      = match r.builders.get? name.text with
        | none => .error (.unknownPolicy name.text)
        | some build => WrittenOption.thresholds options defaults >>= build := by
  unfold resolve WrittenOption.thresholds
  rw [Choice.ofText_written hname]
  cases hbuild : r.builders.get? name.text with
  | none =>
    simp only [hbuild]
    rfl
  | some build =>
    simp only [hbuild, Option.map_some, Option.getD_some, threshold_ofText_list, bind_assoc]
    congr 1
    funext upper
    congr 1
    funext lower
    by_cases hvalid : Thresholds.valid ⟨upper, lower⟩ = true
    · simp only [hvalid, if_true]
      rfl
    · simp only [hvalid]
      rfl

end PolicyRegistry

theorem WrittenOption.threshold_of_lastValue {options : List WrittenOption} {key value : String}
    {x : Float} (h : lastValue options key = some value) (hx : Decimal.readFloat? value = some x)
    (default : Float) : threshold options key default = .ok x := by
  simp [threshold, h, hx]

/-- The text of a choice, read back, gives its name and the last value of each option, and no other
options. A registry takes thresholds from the options, whatever the defaults are, and does not see
in which order options of different names are written. -/
theorem written_choice_read_back {name : Padded} (hname : '[' ∉ name.text.toList)
    (options : List WrittenOption) :
    (∃ text, Choice.ofText (writtenChoice name options) = ⟨name.text, some text⟩
      ∧ ∀ key, (OptionTable.ofText text).get? key = WrittenOption.lastValue options key)
    ∧ ∀ {π : Type} (r : PolicyRegistry Float π) (defaults : Thresholds Float),
      (r.resolve (writtenChoice name options) defaults
        = match r.builders.get? name.text with
          | none => .error (.unknownPolicy name.text)
          | some build => WrittenOption.thresholds options defaults >>= build)
      ∧ (∀ upperText lowerText upper lower,
        WrittenOption.lastValue options "upper" = some upperText →
        WrittenOption.lastValue options "lower" = some lowerText →
        Decimal.readFloat? upperText = some upper → Decimal.readFloat? lowerText = some lower →
        WrittenOption.thresholds options defaults
          = if Thresholds.valid ⟨upper, lower⟩ then .ok ⟨upper, lower⟩
            else .error (.invalidThresholds ⟨upper, lower⟩))
      ∧ ∀ reordered, reordered.Perm options → (options.map fun o => o.name.text).Nodup →
        r.resolve (writtenChoice name reordered) defaults
          = r.resolve (writtenChoice name options) defaults := by
  refine ⟨⟨_, Choice.ofText_written hname options, OptionTable.get?_ofText_list options⟩, ?_⟩
  intro π r defaults
  refine ⟨r.resolve_written hname options defaults, ?_, ?_⟩
  · intro upperText lowerText upper lower hupper hlower hreadUpper hreadLower
    rw [WrittenOption.thresholds, WrittenOption.threshold_of_lastValue hupper hreadUpper,
      WrittenOption.threshold_of_lastValue hlower hreadLower]
    rfl
  · intro reordered hperm hdistinct
    have hvalues := WrittenOption.values_perm hperm hdistinct
    rw [r.resolve_written hname, r.resolve_written hname]
    simp only [WrittenOption.thresholds, WrittenOption.threshold, WrittenOption.lastValue, hvalues]

/-- A text with a space before and a tab after it. -/
def spaced (text : String) (h : Text.Tight text.toList) : Padded :=
  ⟨[' '], text, ['\t'], List.forall_mem_singleton.mpr rfl, h, List.forall_mem_singleton.mpr rfl⟩

/-- The upper threshold is given twice, the lower one once, among other things. -/
def spacedOptions : List WrittenOption :=
  [⟨spaced "upper" (by decide), spaced "high" (by decide),
      by decide, by decide, by decide, by decide, by decide⟩,
    ⟨spaced "lower" (by decide), spaced "0.25" (by decide),
      by decide, by decide, by decide, by decide, by decide⟩,
    ⟨spaced "note" (by decide), spaced "a = b[" (by decide),
      by decide, by decide, by decide, by decide, by decide⟩,
    ⟨spaced "upper" (by decide), spaced "0.75" (by decide),
      by decide, by decide, by decide, by decide, by decide⟩]

/-- An unreadable first value does not count, and neither do the thresholds that were passed. -/
theorem spacedChoice_read_back :
    let name := spaced "SingleThreshold" (by decide)
    let text := " SingleThreshold\t[ upper\t= high\t, lower\t= 0.25\t, note\t= a = b[\t,"
      ++ " upper\t= 0.75\t]"
    '[' ∉ name.text.toList ∧ writtenChoice name spacedOptions = text
    ∧ (Choice.ofText text).name = "SingleThreshold"
    ∧ WrittenOption.lastValue spacedOptions "note" = some "a = b["
    ∧ (PolicyRegistry.builtIn.resolve text ⟨0.9, 0.5⟩).toOption
      = some (SingleThreshold.ofThresholds ⟨0.75, 0.25⟩)
    ∧ PolicyRegistry.builtIn.resolve (writtenChoice name spacedOptions.tail.reverse) ⟨0.9, 0.5⟩
      = PolicyRegistry.builtIn.resolve (writtenChoice name spacedOptions.tail) ⟨0.9, 0.5⟩ := by
  intro name text
  have hname : '[' ∉ name.text.toList := by decide
  have htext : writtenChoice name spacedOptions = text := by decide +kernel
  have hupper : Decimal.readFloat? "0.75" = some 0.75 := by decide +kernel
  have hlower : Decimal.readFloat? "0.25" = some 0.25 := by decide +kernel
  have hvalid : Thresholds.valid (⟨0.75, 0.25⟩ : Thresholds Float) = true := by decide +kernel
  have hbuild : (PolicyRegistry.builtIn (α := Float)).builders.get? name.text
      = some fun thresholds => .ok (.ofThresholds thresholds) := by
    simp [name, spaced, PolicyRegistry.builtIn, PolicyRegistry.register]
  obtain ⟨⟨options, hchoice, -⟩, hresolves⟩ := written_choice_read_back hname spacedOptions
  obtain ⟨hresolve, hgiven, -⟩ := hresolves .builtIn ⟨0.9, 0.5⟩
  have hchosen := hgiven "0.75" "0.25" 0.75 0.25 (by decide) (by decide) hupper hlower
  rw [htext] at hchoice hresolve
  refine ⟨hname, htext, ?_, by decide, ?_, ?_⟩
  · rw [hchoice]
    rfl
  · rw [hresolve, hbuild, hchosen, if_pos hvalid]
    rfl
  · obtain ⟨-, hresolves⟩ := written_choice_read_back hname spacedOptions.tail
    obtain ⟨-, -, hreordered⟩ := hresolves .builtIn ⟨0.9, 0.5⟩
    exact hreordered _ (List.reverse_perm _) (by decide)

end Datacenter
