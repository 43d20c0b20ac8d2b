import Fipper.Lib.Preprocessor

/-!
# The macros

The macros of `macros.hpp` that the loop over a sequence is made of, with the source's names for their
parameters. A parameter is replaced by its expansion, next to `##` and `#` by the argument as it is
written.

* `seqToImprovedGuide…` : a sequence `(a)(b)` as the guide `)a) )b) FP_IMPROVED_GUIDE_END_MARK)`;
* `improvedGuideForeach…` : the loop, which hands its unclosed call from one element to the next;
* `macrosHpp` : all of them.
-/

namespace Fipper.Macros

open Lib.Preprocessor

/-- `#define name text`. -/
def object (name : String) (text : Text) : Macro := ⟨name, none, false, fun _ => some text⟩

def fpEmpty : Macro := object "FP_EMPTY" []

def fpNull : Macro := ⟨"FP_NULL", some 0, true, fun _ => some []⟩

def fpIdentity : Macro := ⟨"FP_IDENTITY", some 0, true, fun
  | [vaArgs] => some vaArgs.expanded
  | _ => none⟩

def fpRparenthesis : Macro := ⟨"FP_RPARENTHESIS", some 0, false, fun _ => some [.rparen]⟩

def fpComma : Macro := ⟨"FP_COMMA", some 0, true, fun _ => some [.comma]⟩

def fpParenthesisRemover : Macro := ⟨"FP_PARENTHESIS_REMOVER", some 0, true, fun
  | [vaArgs] => some (.word "FP_IDENTITY" :: vaArgs.expanded)
  | _ => none⟩

def fpState : Macro := ⟨"FP_STATE", some 1, true, fun
  | [_x, vaArgs] => some vaArgs.expanded
  | _ => none⟩

def fpStringify : Macro := ⟨"FP_STRINGIFY", some 0, true, fun
  | [vaArgs] => some (invoke [.word "FP_STRINGIFY_"] [] (vaArgs.expanded ++ [.rparen]))
  | _ => none⟩

def fpStringify_ : Macro := ⟨"FP_STRINGIFY_", some 0, true, fun
  | [vaArgs] => some [stringify vaArgs.raw]
  | _ => none⟩

def fpConcat : Macro := ⟨"FP_CONCAT", some 0, true, fun
  | [vaArgs] => some (invoke [.word "FP_CONCAT_"] [] (vaArgs.expanded ++ [.rparen]))
  | _ => none⟩

def fpConcat_ : Macro := ⟨"FP_CONCAT_", some 2, false, fun
  | [a, b] => paste a.raw b.raw
  | _ => none⟩

/-! ## The guide -/

def fpSeqToImprovedGuide : Macro := ⟨"FP_SEQ_TO_IMPROVED_GUIDE", some 1, false, fun
  | [seq] => some (invoke [.word "FP_SEQ_TO_IMPROVED_GUIDE_END"] []
      (.word "FP_SEQ_TO_IMPROVED_GUIDE_A" :: (seq.expanded ++
        [.rparen, .word "FP_IMPROVED_GUIDE_END_MARK", .rparen])))
  | _ => none⟩

/-- `FP_RPARENTHESIS FP_EMPTY()`: a call that the next scan only makes. -/
def deferredRparenthesis : Text := [.word "FP_RPARENTHESIS", .word "FP_EMPTY", .lparen, .rparen]

/-- A step of the guide: it takes the first element, and names the macro for the next. -/
def guideStep (name other : String) : Macro := ⟨name, some 0, true, fun
  | [vaArgs] => some (deferredRparenthesis ++ (vaArgs.expanded ++ (deferredRparenthesis ++ [.word other])))
  | _ => none⟩

def fpSeqToImprovedGuideA : Macro := guideStep "FP_SEQ_TO_IMPROVED_GUIDE_A" "FP_SEQ_TO_IMPROVED_GUIDE_B"

def fpSeqToImprovedGuideB : Macro := guideStep "FP_SEQ_TO_IMPROVED_GUIDE_B" "FP_SEQ_TO_IMPROVED_GUIDE_A"

def fpSeqToImprovedGuideAEnd : Macro := object "FP_SEQ_TO_IMPROVED_GUIDE_A_END" []

def fpSeqToImprovedGuideBEnd : Macro := object "FP_SEQ_TO_IMPROVED_GUIDE_B_END" []

def fpSeqToImprovedGuideEnd : Macro := ⟨"FP_SEQ_TO_IMPROVED_GUIDE_END", some 0, true, fun
  | [vaArgs] => some (invoke [.word "FP_SEQ_TO_IMPROVED_GUIDE_END_"] [] (vaArgs.expanded ++ [.rparen]))
  | _ => none⟩

def fpSeqToImprovedGuideEnd_ : Macro := ⟨"FP_SEQ_TO_IMPROVED_GUIDE_END_", some 0, true, fun
  | [vaArgs] => paste vaArgs.raw [.word "_END"]
  | _ => none⟩

/-! ## The loop -/

def fpSeqForeach : Macro := ⟨"FP_SEQ_FOREACH", some 7, false, fun
  | [body, step, final, separator, ctx, start, seq] =>
      some (invoke [.word "FP_IMPROVED_GUIDE_FOREACH"]
        [body.expanded, step.expanded, final.expanded, separator.expanded, ctx.expanded, start.expanded]
        (invoke [.word "FP_SEQ_TO_IMPROVED_GUIDE"] [] (seq.expanded ++ [.rparen, .rparen])))
  | _ => none⟩

def fpImprovedGuideForeach : Macro := ⟨"FP_IMPROVED_GUIDE_FOREACH", some 6, true, fun
  | [body, step, final, separator, ctx, start, vaArgs] =>
      some (invoke [.word "FP_IMPROVED_GUIDE_FOREACH_FIRST"]
        [body.expanded, step.expanded, final.expanded, separator.expanded, ctx.expanded, start.expanded]
        vaArgs.expanded)
  | _ => none⟩

def fpImprovedGuideForeachFirst : Macro := ⟨"FP_IMPROVED_GUIDE_FOREACH_FIRST", some 6, true, fun
  | [body, step, final, separator, ctx, stepCtx, vaArgs] =>
      (paste [.word "FP_IMPROVED_GUIDE_FOREACH_FIRST_"] vaArgs.raw).map fun f =>
        invoke f [body.expanded, step.expanded, final.expanded, separator.expanded, ctx.expanded]
          (stepCtx.expanded ++ [.rparen])
  | _ => none⟩

def fpImprovedGuideForeachFirst_ : Macro := ⟨"FP_IMPROVED_GUIDE_FOREACH_FIRST_", some 6, true, fun
  | [body, step, final, separator, ctx, stepCtx, _vaArgs] =>
      some (invoke [.word "FP_IMPROVED_GUIDE_FOREACH_FIRST_B"]
        [body.expanded, step.expanded, final.expanded, separator.expanded, ctx.expanded, stepCtx.expanded] [])
  | _ => none⟩

def fpImprovedGuideForeachFirstEndMark : Macro :=
  ⟨"FP_IMPROVED_GUIDE_FOREACH_FIRST_FP_IMPROVED_GUIDE_END_MARK", some 6, true, fun
  | [_body, _step, final, _separator, ctx, stepCtx, _vaArgs] =>
      some (invoke final.expanded [ctx.expanded] (stepCtx.expanded ++ [.rparen]))
  | _ => none⟩

def fpImprovedGuideForeachFirstB : Macro := ⟨"FP_IMPROVED_GUIDE_FOREACH_FIRST_B", some 6, true, fun
  | [body, step, final, separator, ctx, stepCtx, vaArgs] =>
      some (invoke body.expanded [ctx.expanded, stepCtx.expanded] (vaArgs.expanded ++ .rparen ::
        invoke [.word "FP_IMPROVED_GUIDE_FOREACH_A"]
          [body.expanded, step.expanded, final.expanded, separator.expanded, ctx.expanded,
            invoke step.expanded [ctx.expanded] (stepCtx.expanded ++ [.rparen]), stepCtx.expanded] []))
  | _ => none⟩

/-- The last argument of the call is the word `old_step`, which is no parameter. -/
def fpImprovedGuideForeachA : Macro := ⟨"FP_IMPROVED_GUIDE_FOREACH_A", some 7, true, fun
  | [body, step, final, separator, ctx, stepCtx, _oldStepCtx, vaArgs] =>
      (paste [.word "FP_IMPROVED_GUIDE_FOREACH_A_"] vaArgs.raw).map fun f =>
        invoke f [body.expanded, step.expanded, final.expanded, separator.expanded, ctx.expanded, stepCtx.expanded]
          [.word "old_step", .rparen]
  | _ => none⟩

def fpImprovedGuideForeachA_ : Macro := ⟨"FP_IMPROVED_GUIDE_FOREACH_A_", some 7, false, fun
  | [body, step, final, separator, ctx, stepCtx, oldStepCtx] =>
      some (invoke [.word "FP_IMPROVED_GUIDE_FOREACH_B"]
        [body.expanded, step.expanded, final.expanded, separator.expanded, ctx.expanded, stepCtx.expanded,
          oldStepCtx.expanded] [])
  | _ => none⟩

def fpImprovedGuideForeachAEndMark : Macro :=
  ⟨"FP_IMPROVED_GUIDE_FOREACH_A_FP_IMPROVED_GUIDE_END_MARK", some 7, false, fun
  | [_body, _step, final, _separator, ctx, stepCtx, _oldStepCtx] =>
      some (invoke final.expanded [ctx.expanded] (stepCtx.expanded ++ [.rparen]))
  | _ => none⟩

def fpImprovedGuideForeachB : Macro := ⟨"FP_IMPROVED_GUIDE_FOREACH_B", some 7, true, fun
  | [body, step, final, separator, ctx, stepCtx, oldStepCtx, vaArgs] =>
      some (invoke separator.expanded [ctx.expanded] (oldStepCtx.expanded ++ .rparen ::
        invoke body.expanded [ctx.expanded, stepCtx.expanded] (vaArgs.expanded ++ .rparen ::
          invoke [.word "FP_IMPROVED_GUIDE_FOREACH_A"]
            [body.expanded, step.expanded, final.expanded, separator.expanded, ctx.expanded,
              invoke step.expanded [ctx.expanded] (stepCtx.expanded ++ [.rparen]), stepCtx.expanded] [])))
  | _ => none⟩

/-! ## Loops without a body, a step, or a separator -/

def fpSeqForeachBody : Macro := ⟨"FP_SEQ_FOREACH_BODY", some 3, false, fun
  | [body, ctx, seq] =>
      some (invoke [.word "FP_SEQ_FOREACH"]
        [body.expanded, [.word "FP_NULL"], [.word "FP_NULL"], [.word "FP_NULL"], ctx.expanded, []]
        (seq.expanded ++ [.rparen]))
  | _ => none⟩

def fpSeqForeachBodyWithSep : Macro := ⟨"FP_SEQ_FOREACH_BODY_WITH_SEP", some 4, false, fun
  | [body, separator, ctx, seq] =>
      some (invoke [.word "FP_SEQ_FOREACH"]
        [body.expanded, [.word "FP_NULL"], [.word "FP_NULL"], separator.expanded, ctx.expanded, []]
        (seq.expanded ++ [.rparen]))
  | _ => none⟩

def fpSeqForeachStep : Macro := ⟨"FP_SEQ_FOREACH_STEP", some 5, false, fun
  | [step, final, ctx, start, seq] =>
      some (invoke [.word "FP_SEQ_FOREACH"]
        [[.word "FP_NULL"], step.expanded, final.expanded, [.word "FP_NULL"], ctx.expanded, start.expanded]
        (seq.expanded ++ [.rparen]))
  | _ => none⟩

def fpSeqForeachStepWithSep : Macro := ⟨"FP_SEQ_FOREACH_STEP_WITH_SEP", some 6, false, fun
  | [step, final, separator, ctx, start, seq] =>
      some (invoke [.word "FP_SEQ_FOREACH"]
        [[.word "FP_NULL"], step.expanded, final.expanded, separator.expanded, ctx.expanded, start.expanded]
        (seq.expanded ++ [.rparen]))
  | _ => none⟩

/-! ## The names that the loop makes -/

theorem paste_first_endMark : paste [.word "FP_IMPROVED_GUIDE_FOREACH_FIRST_"] [.word "FP_IMPROVED_GUIDE_END_MARK"] =
    some [.word "FP_IMPROVED_GUIDE_FOREACH_FIRST_FP_IMPROVED_GUIDE_END_MARK"] := by decide

theorem paste_a_endMark : paste [.word "FP_IMPROVED_GUIDE_FOREACH_A_"] [.word "FP_IMPROVED_GUIDE_END_MARK"] =
    some [.word "FP_IMPROVED_GUIDE_FOREACH_A_FP_IMPROVED_GUIDE_END_MARK"] := by decide

theorem replace_first {body step final separator ctx stepCtx vaArgs : Argument} {f : Text}
    (h : paste [.word "FP_IMPROVED_GUIDE_FOREACH_FIRST_"] vaArgs.raw = some f) :
    fpImprovedGuideForeachFirst.replace [body, step, final, separator, ctx, stepCtx, vaArgs] =
      some (invoke f [body.expanded, step.expanded, final.expanded, separator.expanded, ctx.expanded]
        (stepCtx.expanded ++ [.rparen])) :=
  congrArg (Option.map _) h

theorem replace_a {body step final separator ctx stepCtx oldStepCtx vaArgs : Argument} {f : Text}
    (h : paste [.word "FP_IMPROVED_GUIDE_FOREACH_A_"] vaArgs.raw = some f) :
    fpImprovedGuideForeachA.replace [body, step, final, separator, ctx, stepCtx, oldStepCtx, vaArgs] =
      some (invoke f
        [body.expanded, step.expanded, final.expanded, separator.expanded, ctx.expanded, stepCtx.expanded]
        [.word "old_step", .rparen]) :=
  congrArg (Option.map _) h

/-! ## The table -/

/-- The macros above. -/
def macrosHpp : List Macro :=
  [fpEmpty, fpNull, fpIdentity, fpRparenthesis, fpComma, fpParenthesisRemover, fpState, fpStringify, fpStringify_,
    fpConcat, fpConcat_, fpSeqToImprovedGuide, fpSeqToImprovedGuideA, fpSeqToImprovedGuideB,
    fpSeqToImprovedGuideAEnd, fpSeqToImprovedGuideBEnd, fpSeqToImprovedGuideEnd, fpSeqToImprovedGuideEnd_,
    fpSeqForeach, fpImprovedGuideForeach, fpImprovedGuideForeachFirst, fpImprovedGuideForeachFirst_,
    fpImprovedGuideForeachFirstEndMark, fpImprovedGuideForeachFirstB, fpImprovedGuideForeachA,
    fpImprovedGuideForeachA_, fpImprovedGuideForeachAEndMark, fpImprovedGuideForeachB, fpSeqForeachBody,
    fpSeqForeachBodyWithSep, fpSeqForeachStep, fpSeqForeachStepWithSep]

/-- The macros of the header are defined, and its two bare words are no macros. -/
structure Header (macros : String → Option Macro) : Prop where
  defines : Defines macros macrosHpp
  endMark : macros "FP_IMPROVED_GUIDE_END_MARK" = none
  oldStep : macros "old_step" = none

/-- The macros of the header and no others. -/
def table : String → Option Macro := fun name => macrosHpp.find? fun m => m.name = name

theorem header_table : Header table := ⟨defines_of_nodup (by decide +kernel), rfl, rfl⟩

/-! ## The small macros -/

section Small
variable {macros : String → Option Macro} {uses : List String} {as : List Text} {last : Text}

/-- What a call hands to `...`. -/
theorem listed_plain (has : ∀ a ∈ as, IsArg a ∧ Inert macros [] a) (hlast : Balanced last ∧ Inert macros [] last) :
    Balanced (listed as last) ∧ Inert macros [] (listed as last) := by
  induction as with
  | nil => exact hlast
  | cons a as ih =>
      obtain ⟨ha, hinert⟩ := has a (List.mem_cons_self ..)
      obtain ⟨hbalanced, hplain⟩ := ih fun b hb => has b (List.mem_cons_of_mem _ hb)
      exact ⟨(level_append (level_commas ha)).trans hbalanced, hinert.append hplain (by simp)⟩

/-- A macro that takes `...` alone. -/
theorem computes_variadic {m : Macro} {name : String} {text : Text} (hname : macros name = some m)
    (hparams : m.params = some 0) (hvariadic : m.variadic = true) (huse : name ∈ uses)
    (has : ∀ a ∈ as, IsArg a ∧ Inert macros [] a) (hlast : Balanced last ∧ Inert macros [] last)
    (hreplace : m.replace [⟨listed as last, listed as last⟩] = some text) (htext : Inert macros [] text) :
    Computes macros uses [.word name] as last text := by
  obtain ⟨hbalanced, hplain⟩ := listed_plain has hlast
  have hargs : ∀ a ∈ [listed as last], Inert macros [] a := by simpa using hplain
  refine computes_of_replace hname hparams huse (fun a ha => (has a ha).1) hlast.2 (fun rest => ?_) hargs hreplace
    htext
  rw [hvariadic, ← listed_append]
  exact reads_balanced hbalanced

theorem computes_null (header : Header macros) (huse : "FP_NULL" ∈ uses)
    (has : ∀ a ∈ as, IsArg a ∧ Inert macros [] a) (hlast : Balanced last ∧ Inert macros [] last) :
    Computes macros uses [.word "FP_NULL"] as last [] :=
  computes_variadic (header.defines fpNull (by simp [macrosHpp])) rfl rfl huse has hlast rfl trivial

theorem computes_comma (header : Header macros) (huse : "FP_COMMA" ∈ uses)
    (has : ∀ a ∈ as, IsArg a ∧ Inert macros [] a) (hlast : Balanced last ∧ Inert macros [] last) :
    Computes macros uses [.word "FP_COMMA"] as last [.comma] :=
  computes_variadic (header.defines fpComma (by simp [macrosHpp])) rfl rfl huse has hlast rfl trivial

/-- `FP_STATE` drops its first argument. -/
theorem computes_state (header : Header macros) (huse : "FP_STATE" ∈ uses) {x : Text}
    (hx : IsArg x ∧ Inert macros [] x) (has : ∀ a ∈ as, IsArg a ∧ Inert macros [] a)
    (hlast : Balanced last ∧ Inert macros [] last) :
    Computes macros uses [.word "FP_STATE"] (x :: as) last (listed as last) := by
  obtain ⟨hbalanced, hplain⟩ := listed_plain has hlast
  have hall : ∀ a ∈ x :: as, IsArg a := List.forall_mem_cons.mpr ⟨hx.1, fun a ha => (has a ha).1⟩
  have hreads : ∀ rest, Reads 1 true (listed (x :: as) (last ++ .rparen :: rest)) ([x] ++ [listed as last]) rest := by
    intro rest
    have hread : Reads 0 true (listed as (last ++ .rparen :: rest)) [listed as last] rest := by
      rw [← listed_append]
      exact reads_balanced hbalanced
    have hfirst : ∀ a ∈ [x], IsArg a := by simpa using hx.1
    exact reads_variadic rfl hfirst hread
  exact computes_of_replace (header.defines fpState (by simp [macrosHpp])) rfl huse hall hlast.2 hreads
    (by simpa using ⟨hx.2, hplain⟩) rfl hplain

end Small

end Fipper.Macros
