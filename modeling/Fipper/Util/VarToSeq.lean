import Fipper.Util.Foreach
import Fipper.Lib.Numeral

/-!
# From arguments to a sequence

The header `macroVarToSeq.hpp`, which `macro_var_to_seq.py` generates for an `amount` of arguments.

* `macroVarToSeqHpp` : its macros;
* `expands_varSize` : `FP_VAR_SIZE` expands to the number of its arguments, which pushes the countdown behind
  them to its place;
* `expands_varToSeq` : `FP_VAR_TO_SEQ` expands to the sequence of them.
-/

namespace Fipper.Macros

open Lib.Preprocessor

/-! ## The generated macros -/

/-- `FP_VAR_GET_val(e0,...,eval, ...)`. -/
def fpVarGet (val : Nat) : Macro :=
  ⟨"FP_VAR_GET_" ++ val.repr, some (val + 1), true, fun args => args[val]?.map Argument.expanded⟩

/-- `range(amount, 0, -1)`. -/
def countdown : Nat → List Nat
  | 0 => []
  | n + 1 => (n + 1) :: countdown n

def numeral (n : Nat) : Text := [.number n.repr]

def fpVarSize (amount : Nat) : Macro := ⟨"FP_VAR_SIZE", some 0, true, fun
  | [vaArgs] => some (invoke [.word ("FP_VAR_GET_" ++ amount.repr)] [vaArgs.expanded]
      (joined ((countdown amount).map numeral) ++ [.rparen]))
  | _ => none⟩

def fpVarToSeq : Macro := ⟨"FP_VAR_TO_SEQ", some 0, true, fun
  | [vaArgs] => some (invoke [.word "FP_CONCAT"] [[.word "FP_VAR_TO_SEQ_"]]
      (invoke [.word "FP_VAR_SIZE"] [] (vaArgs.expanded ++ [.rparen, .rparen]) ++
        .lparen :: (vaArgs.expanded ++ [.rparen])))
  | _ => none⟩

/-- `FP_VAR_TO_SEQ_val(e0,...)`, as many parameters as its name says. -/
def fpVarToSeqOf (val : Nat) : Macro :=
  ⟨"FP_VAR_TO_SEQ_" ++ val.repr, some val, false, fun args => some (sequence (args.map Argument.expanded))⟩

/-- The header for an amount of arguments. -/
def macroVarToSeqHpp (amount : Nat) : List Macro :=
  (List.range (amount + 1)).map fpVarGet ++ [fpVarSize amount, fpVarToSeq] ++
    (List.range' 1 amount).map fpVarToSeqOf

/-! ## The number of the arguments -/

theorem length_countdown (n : Nat) : (countdown n).length = n := by
  induction n with
  | zero => rfl
  | succ n ih => rw [countdown, List.length_cons, ih]

/-- As many places from its end as its value. -/
theorem getElem?_countdown {n i : Nat} (hi : i < n) : (countdown n)[i]? = some (n - i) := by
  induction n generalizing i with
  | zero => omega
  | succ n ih =>
      cases i with
      | zero => rfl
      | succ i =>
          rw [countdown, List.getElem?_cons_succ, ih (by omega)]
          congr 1
          omega

/-- Behind the arguments, the countdown has their number where the macro reads it. -/
theorem getElem?_append_countdown {args : List Text} {amount : Nat} (hpos : 0 < args.length)
    (hle : args.length ≤ amount) :
    (args ++ (countdown amount).map numeral)[amount]? = some (numeral args.length) := by
  have hcount : (countdown amount)[amount - args.length]? = some args.length := by
    rw [getElem?_countdown (by omega)]
    congr 1
    omega
  rw [List.getElem?_append_right hle, List.getElem?_map, hcount]
  rfl

theorem inert_numerals {macros : String → Option Macro} {ns : List Nat} :
    ∀ a ∈ ns.map numeral, IsArg a ∧ Inert macros [] a := by
  intro a ha
  obtain ⟨n, -, rfl⟩ := List.mem_map.mp ha
  exact ⟨rfl, trivial⟩

section Header
variable {macros : String → Option Macro} {amount : Nat} {uses active : List String} {args : List Text}
  {rest out : Text}

theorem defined_varGet (h : Defines macros (macroVarToSeqHpp amount)) :
    macros ("FP_VAR_GET_" ++ amount.repr) = some (fpVarGet amount) :=
  h (fpVarGet amount)
    (List.mem_append_left _ (List.mem_append_left _ (List.mem_map_of_mem (List.mem_range.mpr (Nat.lt_succ_self _)))))

theorem defined_varToSeqOf (h : Defines macros (macroVarToSeqHpp amount)) {n : Nat} (hpos : 0 < n)
    (hle : n ≤ amount) : macros ("FP_VAR_TO_SEQ_" ++ n.repr) = some (fpVarToSeqOf n) := by
  refine h (fpVarToSeqOf n) (List.mem_append_right _ (List.mem_map_of_mem ?_))
  exact List.mem_range'_1.mpr (by omega)

/-- A name that is made with `##` is none that begins otherwise. -/
theorem append_ne {stem name : String} (number : String) (h : ¬ stem.toList <+: name.toList) :
    stem ++ number ≠ name := fun heq => h ⟨number.toList, by rw [← heq, String.toList_append]⟩

theorem append_notMem {stem : String} {names : List String} (number : String)
    (h : ∀ name ∈ names, ¬ stem.toList <+: name.toList) : stem ++ number ∉ names :=
  fun hmem => append_ne number (h _ hmem) rfl

theorem joined_plain (hargs : ∀ a ∈ args, IsArg a ∧ Inert macros [] a) :
    Balanced (joined args) ∧ Inert macros [] (joined args) := by
  rcases List.eq_nil_or_concat' args with rfl | ⟨as, last, rfl⟩
  · exact ⟨rfl, trivial⟩
  · have hlast := hargs last (by simp)
    rw [joined_concat]
    exact listed_plain (fun a ha => hargs a (by simp [ha])) ⟨hlast.1.balanced, hlast.2⟩

/-- `FP_VAR_GET_amount(args, amount, ..., 1)`. -/
theorem computes_varGet (header : Defines macros (macroVarToSeqHpp amount))
    (huse : "FP_VAR_GET_" ++ amount.repr ∈ uses) (hpos : 0 < args.length) (hle : args.length ≤ amount)
    (hargs : ∀ a ∈ args, IsArg a ∧ Inert macros [] a) :
    Computes macros uses [.word ("FP_VAR_GET_" ++ amount.repr)] []
      (joined (args ++ (countdown amount).map numeral)) (numeral args.length) := by
  have hread := getElem?_append_countdown hpos hle
  have hall : ∀ a ∈ args ++ (countdown amount).map numeral, IsArg a ∧ Inert macros [] a := by
    intro a ha
    rcases List.mem_append.mp ha with ha | ha
    · exact hargs a ha
    · exact inert_numerals a ha
  have hlength : amount + 1 ≤ (args ++ (countdown amount).map numeral).length := by
    rw [List.length_append, List.length_map, length_countdown]
    omega
  generalize args ++ (countdown amount).map numeral = all at hread hall hlength
  have hne : all ≠ [] := fun h => by simp [h] at hlength
  have hrest := joined_plain fun a ha => hall a (List.mem_of_mem_drop (i := amount + 1) ha)
  have hplain : ∀ a ∈ all.take (amount + 1) ++ [joined (all.drop (amount + 1))], Inert macros [] a := by
    intro a ha
    rcases List.mem_append.mp ha with ha | ha
    · exact (hall a (List.mem_of_mem_take ha)).2
    · rw [List.mem_singleton.mp ha]
      exact hrest.2
  refine computes_of_replace (defined_varGet header) rfl huse (List.forall_mem_nil _) (joined_plain hall).2
    (fun rest => reads_joined_variadic hne hlength fun a ha => (hall a ha).1) hplain ?_ trivial
  show (List.zipWith Argument.mk _ _)[amount]?.map Argument.expanded = some (numeral args.length)
  have htake : amount < (all.take (amount + 1)).length := by
    rw [List.length_take]
    omega
  rw [List.zipWith_self, List.getElem?_map, List.getElem?_append_left htake,
    List.getElem?_take_of_lt (Nat.lt_succ_self _), hread]
  rfl

/-- **`FP_VAR_SIZE` is the number of its arguments.** -/
theorem computes_varSize (header : Defines macros (macroVarToSeqHpp amount))
    (huse : ["FP_VAR_SIZE", "FP_VAR_GET_" ++ amount.repr] ⊆ uses) (hpos : 0 < args.length)
    (hle : args.length ≤ amount) (hargs : ∀ a ∈ args, IsArg a ∧ Inert macros [] a) {va : Text} (hva : Balanced va)
    (hscan : ∀ active, Free uses active [] → Expands macros active va (joined args)) :
    Computes macros uses [.word "FP_VAR_SIZE"] [] va (numeral args.length) := by
  have hget : Computes macros ["FP_VAR_GET_" ++ amount.repr] _ [] _ (numeral args.length) :=
    computes_varGet header (List.mem_singleton_self _) hpos hle hargs
  have hnot : "FP_VAR_SIZE" ∉ ["FP_VAR_GET_" ++ amount.repr] := fun hmem =>
    append_ne amount.repr (by decide) (List.mem_singleton.mp hmem).symm
  have hne : args ≠ [] := fun h => by simp [h] at hpos
  have hnumerals : (countdown amount).map numeral ≠ [] := fun h => by
    have hlength := congrArg List.length h
    rw [List.length_map, length_countdown, List.length_nil] at hlength
    omega
  refine computes_vaArgs (header (fpVarSize amount) (by simp [macroVarToSeqHpp])) rfl rfl
    (huse (List.mem_cons_self ..)) (List.subset_of_cons_subset huse) hnot hva hscan ?_ hget.stands
  rw [joined_append hne hnumerals]
  simp [fpVarSize, invoke, listed]

/-- The macros that `FP_VAR_TO_SEQ` makes use of. -/
def varToSeqNames (amount n : Nat) : List String :=
  ["FP_VAR_TO_SEQ", "FP_CONCAT", "FP_CONCAT_", "FP_VAR_SIZE", "FP_VAR_GET_" ++ amount.repr,
    "FP_VAR_TO_SEQ_" ++ n.repr]

theorem sequence_plain (hargs : ∀ a ∈ args, IsArg a ∧ Inert macros [] a) : Inert macros [] (sequence args) :=
  sequence_inert fun a ha => ⟨(hargs a ha).1.balanced, (hargs a ha).2⟩

/-- **`FP_VAR_TO_SEQ` is the sequence of its arguments.** -/
theorem computes_varToSeq (header : Header macros) (generated : Defines macros (macroVarToSeqHpp amount))
    (hstem : macros "FP_VAR_TO_SEQ_" = none) (huse : varToSeqNames amount args.length ⊆ uses) (hpos : 0 < args.length)
    (hle : args.length ≤ amount) (hargs : ∀ a ∈ args, IsArg a ∧ Inert macros [] a) {va : Text} (hva : Balanced va)
    (hscan : ∀ active, Free uses active [] → Expands macros active va (joined args)) :
    Computes macros uses [.word "FP_VAR_TO_SEQ"] [] va (sequence args) := by
  intro active rest out hfree h
  have hne : args ≠ [] := fun h => by simp [h] at hpos
  have harg : ∀ a ∈ args, IsArg a := fun a ha => (hargs a ha).1
  obtain ⟨hbalanced, hplain⟩ := joined_plain hargs
  have hdone := doneNames_of_inert hplain
  have hseq := (hfree.mono huse).toBusy.done "FP_VAR_TO_SEQ"
  have hbehind : Busy (varToSeqNames amount args.length) ["FP_VAR_TO_SEQ"] active
      (.lparen :: (joined args ++ .rparen :: .done "FP_VAR_TO_SEQ" :: rest)) :=
    hseq.congr (by simp [doneNames, hdone])
  have hstemArg : ∀ a ∈ [[Token.word "FP_VAR_TO_SEQ_"]], IsArg a := by decide
  have hnot : "FP_VAR_TO_SEQ_" ++ args.length.repr ∉ ["FP_CONCAT_", "FP_CONCAT", "FP_VAR_TO_SEQ"] :=
    append_notMem _ (by decide)
  -- the name is made before the parenthesis behind it is read
  have hmade : Expands macros active (.word ("FP_VAR_TO_SEQ_" ++ args.length.repr) :: .done "FP_CONCAT_" ::
      .done "FP_CONCAT" :: .lparen :: (joined args ++ .rparen :: .done "FP_VAR_TO_SEQ" :: rest))
      (sequence args ++ out) := by
    have hactive := ((hbehind.done "FP_CONCAT").done "FP_CONCAT_").idle (by simp [varToSeqNames]) hnot
    refine expands_call (defined_varToSeqOf generated hpos hle) rfl hactive rfl (reads_joined hne rfl harg)
      (forall₂_plain fun a ha => (hargs a ha).2) ?_
      ((h.done.done).plain (sequence_plain hargs))
    show some (sequence _) = _
    rw [List.zipWith_self, List.map_map]
    simp [Function.comp_def]
  have hconcat_ : Expands macros active (invoke [.word "FP_CONCAT_"] [[.word "FP_VAR_TO_SEQ_"]]
      (numeral args.length ++ .rparen :: .done "FP_CONCAT" :: .lparen ::
        (joined args ++ .rparen :: .done "FP_VAR_TO_SEQ" :: rest))) (sequence args ++ out) := by
    have hplain : ∀ a ∈ [[Token.word "FP_VAR_TO_SEQ_"], numeral args.length], Inert macros [] a := by
      simpa using ⟨⟨.inl hstem, trivial⟩, trivial⟩
    exact expands_invoke (header.defines fpConcat_ (by simp [macrosHpp])) rfl hstemArg
      ((hbehind.done "FP_CONCAT").idle (by simp [varToSeqNames]) (by decide)) (reads_named rfl hstemArg rfl)
      (forall₂_plain hplain) rfl hmade
  have hconcat : Expands macros active (invoke [.word "FP_CONCAT"] [] (listed [[.word "FP_VAR_TO_SEQ_"]]
      (invoke [.word "FP_VAR_SIZE"] [] (joined args ++ [.rparen])) ++ .rparen :: .lparen ::
        (joined args ++ .rparen :: .done "FP_VAR_TO_SEQ" :: rest))) (sequence args ++ out) := by
    have hsize : Computes macros ["FP_VAR_SIZE", "FP_VAR_GET_" ++ amount.repr] [.word "FP_VAR_SIZE"] []
        (joined args) (numeral args.length) :=
      computes_varSize generated (List.Subset.refl _) hpos hle hargs hbalanced fun _ _ => expands_plain hplain
    have hidle : ∀ name ∈ ["FP_VAR_SIZE", "FP_VAR_GET_" ++ amount.repr], name ∉ ["FP_VAR_TO_SEQ"] := by
      simpa using append_ne amount.repr (by decide)
    have hcall : Balanced (listed [[.word "FP_VAR_TO_SEQ_"]]
        (invoke [.word "FP_VAR_SIZE"] [] (joined args ++ [.rparen]))) :=
      listed_balanced hstemArg (invoke_isArg _ (List.forall_mem_nil _) hbalanced).balanced
    have hscan := hsize.stands.expands (hbehind.free (by simp [varToSeqNames]) hidle).scan
    refine expands_invoke (header.defines fpConcat (by simp [macrosHpp])) rfl (List.forall_mem_nil _) ?_
      (reads_balanced hcall) (.cons (.word hstem (.fixed rfl hscan)) .nil) rfl ?_
    · refine (hbehind.congr ?_).idle (by simp [varToSeqNames]) (by decide)
      rw [doneNames_append, doneNames_of_level hcall]
      rfl
    · simpa [invoke, listed] using hconcat_
  refine expands_invoke (generated fpVarToSeq (by simp [macroVarToSeqHpp])) rfl (List.forall_mem_nil _) ?_
    (reads_balanced hva) (.cons (hscan _ hfree.scan) .nil) rfl ?_
  · rw [doneNames_append, doneNames_of_level hva]
    exact hfree _ (huse (by simp [varToSeqNames]))
  · simpa [invoke, listed] using hconcat

end Header

/-! ## The generated names -/

section Names
variable {amount : Nat} {name : String}

theorem repr_injective : Function.Injective Nat.repr := by
  intro m n h
  have hnumber := congrArg (fun s : String => Lib.number s.toList) h
  simp only [Lib.number_repr] at hnumber
  exact Option.some.inj hnumber

theorem append_repr_injective (stem : String) : Function.Injective fun n : Nat => stem ++ n.repr := by
  intro m n h
  have hlist := congrArg String.toList h
  simp only [String.toList_append] at hlist
  exact repr_injective (String.toList_inj.mp (List.append_cancel_left hlist))

/-- Neither of the two stems that the generator numbers. -/
def Unnumbered (name : String) : Prop :=
  ¬ "FP_VAR_GET_".toList <+: name.toList ∧ ¬ "FP_VAR_TO_SEQ_".toList <+: name.toList

instance (name : String) : Decidable (Unnumbered name) := inferInstanceAs (Decidable (_ ∧ _))

theorem names_macroVarToSeqHpp (amount : Nat) : (macroVarToSeqHpp amount).map Macro.name =
    (List.range (amount + 1)).map (fun n => "FP_VAR_GET_" ++ n.repr) ++ ["FP_VAR_SIZE", "FP_VAR_TO_SEQ"] ++
      (List.range' 1 amount).map fun n => "FP_VAR_TO_SEQ_" ++ n.repr := by
  rw [macroVarToSeqHpp, List.map_append, List.map_append, List.map_map, List.map_map]
  rfl

/-- The header defines no other names. -/
theorem notMem_macroVarToSeqHpp (hname : Unnumbered name) (hother : name ∉ ["FP_VAR_SIZE", "FP_VAR_TO_SEQ"]) :
    name ∉ (macroVarToSeqHpp amount).map Macro.name := by
  rw [names_macroVarToSeqHpp]
  intro hmem
  rcases List.mem_append.mp hmem with hmem | hmem
  · rcases List.mem_append.mp hmem with hmem | hmem
    · obtain ⟨n, -, hn⟩ := List.mem_map.mp hmem
      exact append_ne n.repr hname.1 hn
    · exact hother hmem
  · obtain ⟨n, -, hn⟩ := List.mem_map.mp hmem
    exact append_ne n.repr hname.2 hn

/-- Nor the stem of a name without its number. -/
theorem stem_notMem (amount : Nat) : "FP_VAR_TO_SEQ_" ∉ (macroVarToSeqHpp amount).map Macro.name := by
  rw [names_macroVarToSeqHpp]
  intro hmem
  rcases List.mem_append.mp hmem with hmem | hmem
  · rcases List.mem_append.mp hmem with hmem | hmem
    · obtain ⟨n, -, hn⟩ := List.mem_map.mp hmem
      exact append_ne n.repr (by decide) hn
    · exact absurd hmem (by decide)
  · obtain ⟨n, -, hn⟩ := List.mem_map.mp hmem
    have hlist := congrArg String.toList hn
    rw [String.toList_append, List.append_right_eq_self] at hlist
    have hnumber := Lib.number_repr n
    rw [hlist] at hnumber
    cases hnumber

/-- It defines no name twice. -/
theorem nodup_macroVarToSeqHpp (amount : Nat) : ((macroVarToSeqHpp amount).map Macro.name).Nodup := by
  rw [names_macroVarToSeqHpp]
  refine List.nodup_append.mpr ⟨List.nodup_append.mpr ⟨?_, by decide, ?_⟩, ?_, ?_⟩
  · exact List.nodup_range.map (append_repr_injective "FP_VAR_GET_")
  · intro name hname other hother heq
    obtain ⟨n, -, rfl⟩ := List.mem_map.mp hname
    exact append_notMem n.repr (by decide) (heq ▸ hother)
  · exact (List.nodup_range' 1).map (append_repr_injective "FP_VAR_TO_SEQ_")
  · intro name hname other hother heq
    obtain ⟨n, -, rfl⟩ := List.mem_map.mp hother
    rcases List.mem_append.mp hname with hname | hname
    · obtain ⟨k, -, rfl⟩ := List.mem_map.mp hname
      have hprefix := congrArg (fun s : String => s.toList.take 8) heq
      simp only [String.toList_append] at hprefix
      rw [List.take_append_of_le_length (by decide), List.take_append_of_le_length (by decide)] at hprefix
      exact absurd hprefix (by decide)
    · exact append_notMem n.repr (by decide) (heq ▸ hname)

end Names

end Fipper.Macros
