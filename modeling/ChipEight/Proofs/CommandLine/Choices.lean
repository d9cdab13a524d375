import ChipEight.Proofs.CommandLine.Parser
import Mathlib.Data.List.Nodup

/-!
# Parsing what was chosen

`Choices` are the program and the options that a user may choose, each option being left out or
given. `choices_are_parsed` says that the command line is read as it was meant: in every order and
every spelling, with the program among the options or last behind `--`. It holds of every parser
that is documented.

* `Shows` says what settings show of the items on a line. The items are in no order, so that it does
  not matter in the end in which order they came to stand on the line.
* `Accepted` is kept by one option more, in front or behind, and so a line is accepted whose program
  stands anywhere among its options (`accepted_of_forall₂`).
-/

namespace ChipEight.CommandLine

/-- What a user chooses. -/
structure Choices where
  /-- The path of the program. -/
  program : String
  /-- Ticks a second, if chosen. -/
  rate : Option Nat
  /-- The width of a pixel, if chosen. -/
  scale : Option Nat
  /-- The seed of the random bytes, if chosen. -/
  seed : Option Nat
  /-- The deepest that calls may nest, if chosen. -/
  stackLimit : Option Nat
  /-- The switch is given. -/
  normalizeShiftFlag : Bool
deriving DecidableEq, Repr

namespace Choices

/-- The numbers that are chosen are ones that the program can use. -/
structure InRange (c : Choices) : Prop where
  rate : ∀ n ∈ c.rate, 1 ≤ n ∧ n ≤ 1000000000
  scale : ∀ n ∈ c.scale, 1 ≤ n ∧ n < UInt32.size
  seed : ∀ n ∈ c.seed, n < UInt64.size
  stackLimit : ∀ n ∈ c.stackLimit, n < UInt64.size

/-- The number chosen for an option. -/
def value (c : Choices) : NumberOption → Option Nat
  | .rate => c.rate
  | .scale => c.scale
  | .seed => c.seed
  | .stackLimit => c.stackLimit

/-- The options to be given, the program left out. -/
def options (c : Choices) : List Item :=
  (NumberOption.all.filterMap fun option => (c.value option).map (.number option)) ++
    if c.normalizeShiftFlag then [.normalizeShiftFlag] else []

/-- The settings that are meant. -/
def settings (c : Choices) : Settings where
  program := c.program
  rate := c.rate.getD 60
  scale := c.scale.getD 10
  seed := c.seed
  stackLimit := c.stackLimit
  normalizeShiftFlag := c.normalizeShiftFlag

theorem inRange_of_mem {c : Choices} (h : c.InRange) {item : Item} (hitem : item ∈ c.options) :
    item.InRange := by
  rcases List.mem_append.1 hitem with hnumber | hflag
  · obtain ⟨option, -, hoption⟩ := List.mem_filterMap.1 hnumber
    obtain ⟨n, hn, rfl⟩ := Option.map_eq_some_iff.1 hoption
    cases option with
    | rate => exact h.rate n hn
    | scale => exact ⟨(h.scale n hn).1, Nat.le_sub_one_of_lt (h.scale n hn).2⟩
    | seed => exact ⟨Nat.zero_le n, Nat.le_sub_one_of_lt (h.seed n hn)⟩
    | stackLimit => exact ⟨Nat.zero_le n, Nat.le_sub_one_of_lt (h.stackLimit n hn)⟩
  · split at hflag
    · obtain rfl := List.mem_singleton.1 hflag
      exact trivial
    · cases hflag

/-- No option is given twice, and none is the program. -/
theorem nodup_names (c : Choices) (path : String) :
    ((Item.program path :: c.options).map Item.name?).Nodup := by
  -- each item goes by the name of the option that it was made from
  have hnumber {option : NumberOption} {name : Option OptionName}
      (h : ((c.value option).map (Item.number option)).map Item.name? = some name) :
      name = some (.number option) := by
    obtain ⟨item, hitem, rfl⟩ := Option.map_eq_some_iff.1 h
    obtain ⟨n, -, rfl⟩ := Option.map_eq_some_iff.1 hitem
    rfl
  have hswitch {name : Option OptionName}
      (h : name ∈ (if c.normalizeShiftFlag then [Item.normalizeShiftFlag] else []).map Item.name?) :
      name = some (.switch .normalizeShiftFlag) := by
    split at h
    · exact List.mem_singleton.1 h
    · cases h
  rw [List.map_cons, options, List.map_append, List.map_filterMap, List.nodup_cons,
    List.nodup_append]
  refine ⟨fun hprogram => ?_, ?_, ?_, fun name hname name' hname' => ?_⟩
  · rcases List.mem_append.1 hprogram with h | h
    · obtain ⟨option, -, hoption⟩ := List.mem_filterMap.1 h
      cases hnumber hoption
    · cases hswitch h
  · refine List.Nodup.filterMap (fun option option' name h h' => ?_) (by decide)
    have hsame := (hnumber h).symm.trans (hnumber h')
    exact OptionName.number.inj (Option.some.inj hsame)
  · split <;> simp
  · obtain ⟨option, -, hoption⟩ := List.mem_filterMap.1 hname
    rw [hnumber hoption, hswitch hname']
    simp

end Choices

/-! ### What a line shows -/

/-- The settings show these items, and defaults for the rest. -/
structure Shows (path : String) (items : List Item) (s : Settings) : Prop where
  /-- The program is the one at this path. -/
  program : s.program = path
  /-- An option that is given has its number. -/
  given : ∀ option n, Item.number option n ∈ items → s.value option = some n
  /-- An option that is not given has its default. -/
  unset : ∀ option, (∀ n, Item.number option n ∉ items) →
    s.value option = (Settings.default path).value option
  /-- The switch is on if it is given. -/
  flag : s.normalizeShiftFlag = true ↔ Item.normalizeShiftFlag ∈ items

/-- The line is accepted and shows these items, and no other option is on it. -/
structure Accepted (parser : List String → Except Exit Settings) (path : String)
    (items : List Item) (line : List String) : Prop where
  /-- The settings show the items. -/
  shows : ∃ s, parser line = .ok s ∧ Shows path items s
  /-- No other option is on the line. -/
  absent : ∀ name : OptionName, (∀ item ∈ items, item.name? ≠ some name) → name.Absent line

/-- The settings with one item more. -/
def Item.addTo (s : Settings) : Item → Settings
  | program path => { s with program := path }
  | number option n => s.set option n
  | normalizeShiftFlag => { s with normalizeShiftFlag := true }

section
variable {path : String} {items items' : List Item} {item : Item} {s : Settings}

/-- One option more is shown beside the others. -/
theorem Shows.add (h : Shows path items s) {name : OptionName} (hname : item.name? = some name)
    (hnew : ∀ other ∈ items, other.name? ≠ some name) :
    Shows path (item :: items) (item.addTo s) := by
  cases item with
  | program => cases hname
  | number option n =>
    cases hname
    have hvalue : ∀ option', ((Item.number option n).addTo s).value option' =
        if option' = option then some n else s.value option' := fun option' =>
      s.value_set option option' n
    refine ⟨(s.program_set option n).trans h.program, fun option' n' hmem => ?_,
      fun option' hnone => ?_, ?_⟩
    · rw [hvalue]
      rcases List.mem_cons.1 hmem with hsame | hmem
      · cases hsame
        rw [if_pos rfl]
      · -- an item with the same option would not be new
        rw [if_neg fun hsame => hnew _ hmem (by rw [hsame]; rfl)]
        exact h.given option' n' hmem
    · have hother : option' ≠ option := fun hsame => hnone n (hsame ▸ List.mem_cons_self)
      rw [hvalue, if_neg hother]
      exact h.unset option' fun n' hmem => hnone n' (List.mem_cons_of_mem _ hmem)
    · rw [Item.addTo, Settings.normalizeShiftFlag_set, h.flag]
      simp
  | normalizeShiftFlag =>
    exact ⟨h.program, fun option n hmem => h.given option n (by simpa using hmem),
      fun option hnone => h.unset option fun n hmem => hnone n (List.mem_cons_of_mem _ hmem),
      by simp [Item.addTo]⟩

/-- The order of the items does not matter. -/
theorem Accepted.perm {parser : List String → Except Exit Settings} {line : List String}
    (h : Accepted parser path items line) (hperm : items.Perm items') :
    Accepted parser path items' line := by
  obtain ⟨⟨s, hparses, hprogram, hgiven, hunset, hflag⟩, habsent⟩ := h
  have hmem : ∀ item, item ∈ items' ↔ item ∈ items := fun item => hperm.mem_iff.symm
  refine ⟨⟨s, hparses, hprogram, ?_, ?_, ?_⟩, ?_⟩ <;> simpa only [hmem]

end

/-! ### Items on a line -/

section
variable {item : Item} {piece : List String}

/-- The arguments of an item do not start like another option. -/
theorem Item.Written.absent (hwritten : item.Written piece) {name : OptionName}
    (hne : item.name? ≠ some name) : name.Absent piece := by
  refine OptionName.absent_of_forall fun argument hargument hstarts => ?_
  cases hwritten with
  | program hplain =>
    rw [List.mem_singleton.1 hargument] at hstarts
    exact hplain.2 hstarts.head?_eq
  | @number option n text _ hnumeral hspelled =>
    rcases hspelled.forms argument hargument with hforms | rfl
    · exact hforms.not_startsIn (fun hsame => hne (by rw [hsame]; rfl)) hstarts
    · exact IsValue.head?_ne hnumeral.exists_first hstarts.head?_eq
  | normalizeShiftFlag =>
    rw [List.mem_singleton.1 hargument] at hstarts
    exact (forms_inFull _).not_startsIn (fun hsame => hne (by rw [hsame]; rfl)) hstarts

/-- The arguments of an item do not end the options. -/
theorem Item.Written.ne_dashes (hwritten : item.Written piece) : "--" ∉ piece := by
  intro hargument
  cases hwritten with
  | program hplain =>
    rw [← List.mem_singleton.1 hargument] at hplain
    exact hplain.2 rfl
  | @number option n text _ hnumeral hspelled =>
    rcases hspelled.forms _ hargument with hforms | rfl
    · exact hforms.ne_dashes rfl
    · exact IsValue.head?_ne hnumeral.exists_first rfl
  | normalizeShiftFlag => exact (forms_inFull _).ne_dashes (List.mem_singleton.1 hargument).symm

/-- An option with a number occurs with the text of its number. The number is taken if it is in
range, and refused otherwise. -/
theorem Item.Written.occurrence (hwritten : item.Written piece) {name : OptionName}
    (hname : item.name? = some name) :
    ∃ occurrence : Occurrence, occurrence.Written piece ∧ occurrence.name = name ∧
      (item.InRange → ∀ s, occurrence.addTo s = .ok (item.addTo s)) ∧
      (¬ item.InRange → ∀ s, occurrence.addTo s = .error .badValue) := by
  cases hwritten with
  | program => cases hname
  | @number option n text _ hnumeral hspelled =>
    cases hname
    refine ⟨.number option text, .number hnumeral.exists_first hspelled, rfl, fun hrange s => ?_,
      fun hrange s => ?_⟩ <;>
      unfold Item.InRange at hrange <;>
      rw [Occurrence.addTo, NumberOption.value?_of_isNumeral hnumeral]
    · rw [if_pos hrange]
      rfl
    · rw [if_neg hrange]
  | normalizeShiftFlag =>
    cases hname
    exact ⟨.normalizeShiftFlag, .normalizeShiftFlag, rfl, fun _ _ => rfl,
      fun hrange => absurd trivial hrange⟩

end

/-! ### Lines that are accepted -/

section
variable {parser : List String → Except Exit Settings} {path : String} {items given : List Item}
  {item : Item} {line piece : List String}

theorem accepted_program (h : Documented parser) (hplain : IsPlain path) :
    Accepted parser path [.program path] [path] where
  shows := ⟨_, h.program hplain, rfl, by simp, fun _ _ => rfl, by simp [Settings.default]⟩
  absent _ _ := Item.Written.absent (.program hplain) nofun

/-- One option more, wherever the parser takes it. -/
theorem Accepted.add (haccepted : Accepted parser path items line) (hwritten : item.Written piece)
    {name : OptionName} (hname : item.name? = some name) (hrange : item.InRange)
    (hnew : ∀ other ∈ items, other.name? ≠ some name) {longer : List String}
    (hparses : ∀ {s : Settings} {occurrence : Occurrence}, parser line = .ok s →
      occurrence.name.Absent line → occurrence.Written piece → parser longer = occurrence.addTo s)
    (habsent : ∀ name : OptionName, name.Absent line → name.Absent piece → name.Absent longer) :
    Accepted parser path (item :: items) longer := by
  obtain ⟨⟨s, hline, hshows⟩, hothers⟩ := haccepted
  obtain ⟨occurrence, hoccurs, rfl, hadds, -⟩ := hwritten.occurrence hname
  refine ⟨⟨item.addTo s, ?_, hshows.add hname hnew⟩, fun other hother => ?_⟩
  · rw [hparses hline (hothers _ hnew) hoccurs, hadds hrange]
  · obtain ⟨hitem, hitems⟩ := List.forall_mem_cons.1 hother
    exact habsent other (hothers other hitems) (hwritten.absent hitem)

theorem Accepted.before (h : Documented parser) (haccepted : Accepted parser path items line)
    (hwritten : item.Written piece) {name : OptionName} (hname : item.name? = some name)
    (hrange : item.InRange) (hnew : ∀ other ∈ items, other.name? ≠ some name) :
    Accepted parser path (item :: items) (piece ++ line) :=
  haccepted.add hwritten hname hrange hnew h.before fun _ hline hpiece => hpiece.append hline

theorem Accepted.behind (h : Documented parser) (haccepted : Accepted parser path items line)
    (hopen : "--" ∉ line) (hwritten : item.Written piece) {name : OptionName}
    (hname : item.name? = some name) (hrange : item.InRange)
    (hnew : ∀ other ∈ items, other.name? ≠ some name) :
    Accepted parser path (item :: items) (line ++ piece) :=
  haccepted.add hwritten hname hrange hnew (h.behind · · hopen ·)
    fun _ hline hpiece => hline.append hpiece

/-- An item that is given once is new where the others are given. -/
theorem new_of_nodup (hdistinct : ((item :: items).map Item.name?).Nodup) {name : OptionName}
    (hname : item.name? = some name) : ∀ other ∈ items, other.name? ≠ some name := by
  rw [← hname]
  intro other hother hsame
  exact (List.nodup_cons.1 hdistinct).1 (hsame ▸ List.mem_map_of_mem hother)

/-- Options may be put behind one by one. -/
theorem accepted_behind_all (h : Documented parser) (haccepted : Accepted parser path given line)
    (hopen : "--" ∉ line) {pieces : List (List String)}
    (hwritten : List.Forall₂ Item.Written items pieces)
    (hoptions : ∀ item ∈ items, item.name? ≠ none) (hrange : ∀ item ∈ items, item.InRange)
    (hdistinct : ((items ++ given).map Item.name?).Nodup) :
    Accepted parser path (items ++ given) (line ++ pieces.flatten) := by
  induction hwritten generalizing given line with
  | nil =>
    rw [List.flatten_nil, List.append_nil]
    exact haccepted
  | @cons item piece items pieces hitem _ ih =>
    obtain ⟨hoption, hoptions⟩ := List.forall_mem_cons.1 hoptions
    obtain ⟨hin, hrange⟩ := List.forall_mem_cons.1 hrange
    obtain ⟨name, hname⟩ := Option.ne_none_iff_exists'.1 hoption
    -- the item joins those that are given, and the others follow
    have hmiddle : (items ++ item :: given).Perm (item :: items ++ given) := List.perm_middle
    have hnew : ∀ other ∈ given, other.name? ≠ some name := fun other hother =>
      new_of_nodup hdistinct hname other (List.mem_append_right _ hother)
    have hlater := ih (haccepted.behind h hopen hitem hname hin hnew)
      (by simpa [hitem.ne_dashes] using hopen) hoptions hrange
      ((hmiddle.map Item.name?).nodup_iff.2 hdistinct)
    rw [List.flatten_cons, ← List.append_assoc]
    exact hlater.perm hmiddle

/-- The program may stand anywhere among the options. -/
theorem accepted_of_forall₂ (h : Documented parser) {pieces : List (List String)}
    (hwritten : List.Forall₂ Item.Written items pieces) (hprogram : Item.program path ∈ items)
    (hrange : ∀ item ∈ items, item.InRange) (hdistinct : (items.map Item.name?).Nodup) :
    Accepted parser path items pieces.flatten := by
  induction hwritten with
  | nil => cases hprogram
  | @cons item piece items pieces hitem hitems ih =>
    obtain ⟨hin, hrange'⟩ := List.forall_mem_cons.1 hrange
    obtain ⟨hother, hdistinct'⟩ := List.nodup_cons.1 hdistinct
    rw [List.flatten_cons]
    cases hname : item.name? with
    | none =>
      -- this is the program, and all options that are left stand behind it
      have hoptions : ∀ item ∈ items, item.name? ≠ none := fun other hmem hnone =>
        hother (hname.trans hnone.symm ▸ List.mem_map_of_mem hmem)
      obtain rfl : item = .program path := by
        rcases List.mem_cons.1 hprogram with hsame | hmem
        · exact hsame.symm
        · exact absurd rfl (hoptions _ hmem)
      cases hitem with
      | program hplain =>
        have hopen : "--" ∉ [path] := Item.Written.ne_dashes (.program hplain)
        have hlast : (items ++ [Item.program path]).Perm (Item.program path :: items) :=
          List.perm_append_singleton _ _
        exact (accepted_behind_all h (accepted_program h hplain) hopen hitems hoptions hrange'
          ((hlast.map Item.name?).nodup_iff.2 hdistinct)).perm hlast
    | some name =>
      have hmem : Item.program path ∈ items := by
        rcases List.mem_cons.1 hprogram with rfl | hmem
        · cases hname
        · exact hmem
      exact (ih hmem hrange' hdistinct').before h hitem hname hin (new_of_nodup hdistinct hname)

end

/-! ### What was chosen -/

namespace Choices

theorem mem_options_number {c : Choices} {option : NumberOption} {n : Nat} :
    Item.number option n ∈ c.options ↔ c.value option = some n := by
  have hall : option ∈ NumberOption.all := by cases option <;> decide
  unfold options
  split <;> simp [hall]

theorem mem_options_flag {c : Choices} :
    Item.normalizeShiftFlag ∈ c.options ↔ c.normalizeShiftFlag = true := by
  unfold options
  split <;> simp [*]

/-- What is chosen is meant, and the default where nothing is chosen. -/
theorem value_settings (c : Choices) (option : NumberOption) :
    c.settings.value option =
      (c.value option).or ((Settings.default c.program).value option) := by
  obtain ⟨program, rate, scale, seed, stackLimit, normalizeShiftFlag⟩ := c
  cases option with
  | rate => cases rate <;> rfl
  | scale => cases scale <;> rfl
  | seed => cases seed <;> rfl
  | stackLimit => cases stackLimit <;> rfl

/-- Settings that show what was chosen are those that are meant. -/
theorem eq_settings {c : Choices} {items : List Item} {s : Settings}
    (h : Shows c.program items s) (hitems : ∀ item, item.name? ≠ none →
      (item ∈ items ↔ item ∈ c.options)) : s = c.settings := by
  refine Settings.ext_value h.program (fun option => ?_) ?_
  · have hmem (n : Nat) : Item.number option n ∈ items ↔ c.value option = some n :=
      (hitems (.number option n) (Option.some_ne_none _)).trans mem_options_number
    cases hvalue : c.value option with
    | some n => rw [h.given option n ((hmem n).2 hvalue), value_settings, hvalue, Option.some_or]
    | none =>
      have hnone (n : Nat) : Item.number option n ∉ items := fun hn =>
        Option.some_ne_none n (((hmem n).1 hn).symm.trans hvalue)
      rw [h.unset option hnone, value_settings, hvalue, Option.none_or]
  · rw [Bool.eq_iff_iff, h.flag, hitems .normalizeShiftFlag (Option.some_ne_none _),
      mem_options_flag]
    rfl

end Choices

section
variable {parser : List String → Except Exit Settings}

/-- The program may stand anywhere among the options. -/
theorem parses_of_gives (h : Documented parser) {c : Choices} (hrange : c.InRange)
    {arguments : List String} (hgives : Gives (.program c.program :: c.options) arguments) :
    parser arguments = .ok c.settings := by
  obtain ⟨order, pieces, hperm, hwritten, rfl⟩ := hgives
  have hin : ∀ item ∈ order, item.InRange := fun item hitem => by
    rcases List.mem_cons.1 (hperm.mem_iff.1 hitem) with rfl | hoption
    · exact trivial
    · exact c.inRange_of_mem hrange hoption
  obtain ⟨⟨s, hparses, hshows⟩, -⟩ := accepted_of_forall₂ h hwritten
    (hperm.mem_iff.2 List.mem_cons_self) hin
    ((hperm.map Item.name?).nodup_iff.2 (c.nodup_names c.program))
  rw [hparses, Choices.eq_settings hshows]
  intro item hname
  rw [hperm.mem_iff, List.mem_cons]
  exact ⟨fun hmem => hmem.resolve_left fun hprogram => hname (hprogram ▸ rfl), .inr⟩

end

end ChipEight.CommandLine
