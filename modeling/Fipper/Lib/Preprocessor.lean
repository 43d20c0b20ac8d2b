import Fipper.Lib.Sequence

/-!
# Macro expansion

The replacement of macros in a text of preprocessing tokens. The text that replaces a macro is scanned
again together with what follows, so a call may begin in it and end behind it. Until its end is reached,
the macro is active: its name is not replaced there, and never again.

* `collect`, `bind` : the arguments of a call, and what they are of the parameters;
* `expand` : the expansion of a text, with `fuel` for its depth; `Expands` : it has one;
* `expands_call` and the other rules: how a text expands, by its first token;
* `Balanced`, `IsArg` : texts that a call reads as they are; `Inert` : texts that expand to themselves;
* `Stands`, `Computes` : what a text, or a call, expands to, whatever follows it.
-/

namespace Fipper.Lib.Preprocessor

/-- A preprocessing token. A `painted` name is no longer replaced. `done` is no token of a text: it marks
where the replacement of a macro ends. -/
inductive Token
  | word (name : String)
  | painted (name : String)
  | number (digits : String)
  | string (content : String)
  | other (spelling : String)
  | lparen
  | rparen
  | comma
  | done (name : String)
  deriving DecidableEq, Repr

abbrev Text := List Token

/-- An argument as it is written, and fully expanded. -/
structure Argument where
  raw : Text
  expanded : Text
  deriving DecidableEq, Repr

/-- A macro: its named parameters, `none` for one that is replaced without a call, whether `...` follows
them, and its replacement. -/
structure Macro where
  name : String
  params : Option Nat
  variadic : Bool
  replace : List Argument → Option Text

/-- Why a text has no expansion: a call or a replacement is ill-formed, or there is no fuel left. -/
inductive Failure
  | malformed
  | fuel
  deriving DecidableEq, Repr

/-! ## The operators -/

/-- `##` of two tokens. -/
def Token.paste : Token → Token → Option Token
  | .word a, .word b => some (.word (a ++ b))
  | .word a, .number b => some (.word (a ++ b))
  | .number a, .number b => some (.number (a ++ b))
  | _, _ => none

/-- `##`: the last token of the first text and the first of the second become one. -/
def paste (left right : Text) : Option Text :=
  match left.getLast?, right with
  | none, right => some right
  | some _, [] => some left
  | some a, b :: right => (a.paste b).map fun t => left.dropLast ++ t :: right

def Token.spelling : Token → String
  | .word name | .painted name => name
  | .number digits => digits
  | .string content => "\"" ++ content ++ "\""
  | .other spelling => spelling
  | .lparen => "("
  | .rparen => ")"
  | .comma => ","
  | .done _ => ""

/-- `#`, without the spaces. -/
def stringify (text : Text) : Token := .string (String.join (text.map Token.spelling))

/-! ## Calls -/

/-- The macros whose replacements end in a text. -/
def doneNames : Text → List String
  | [] => []
  | .done name :: ts => name :: doneNames ts
  | _ :: ts => doneNames ts

def dropDone : Text → Text
  | .done _ :: ts => dropDone ts
  | ts => ts

/-- The arguments of a call, from behind its parenthesis on, and what follows the call: `depth` parentheses
are open in the argument `arg`. -/
def collect (depth : Nat) (arg : Text) : Text → Option (List Text × Text)
  | [] => none
  | .done _ :: ts => collect depth arg ts
  | .lparen :: ts => collect (depth + 1) (arg ++ [.lparen]) ts
  | .rparen :: ts =>
      match depth with
      | 0 => some ([arg], ts)
      | depth + 1 => collect depth (arg ++ [.rparen]) ts
  | .comma :: ts =>
      match depth with
      | 0 => (collect 0 [] ts).map fun r => (arg :: r.1, r.2)
      | depth + 1 => collect (depth + 1) (arg ++ [.comma]) ts
  | t :: ts => collect depth (arg ++ [t]) ts

/-- The texts, with commas between them. -/
def joined (texts : List Text) : Text := [.comma].intercalate texts

theorem joined_singleton (text : Text) : joined [text] = text := List.intercalate_singleton

theorem joined_cons {texts : List Text} (text : Text) (h : texts ≠ []) :
    joined (text :: texts) = text ++ .comma :: joined texts := by
  rw [joined, List.intercalate_cons_of_ne_nil h, List.append_assoc]
  rfl

/-- What the arguments are of the parameters; those that `...` takes are one, with their commas. -/
def bind (params : Nat) (variadic : Bool) (args : List Text) : Option (List Text) :=
  if variadic then
    if args.length < params then none else some (args.take params ++ [joined (args.drop params)])
  else if params = 0 then if args = [[]] then some [] else none
  else if args.length = params then some args else none

/-- A name may be there without a call. -/
inductive Invocation
  | uncalled
  | malformed
  | call (args : List Text) (rest : Text)
  deriving DecidableEq, Repr

/-- What stands behind the name of a macro. -/
def Macro.invocation (m : Macro) (ts : Text) : Invocation :=
  match m.params with
  | none => .call [] ts
  | some params =>
      match dropDone ts with
      | .lparen :: ts =>
          match collect 0 [] ts with
          | none => .malformed
          | some (args, rest) =>
              match bind params m.variadic args with
              | none => .malformed
              | some args => .call args rest
      | _ => .uncalled

/-! ## The expansion -/

/-- The expansion of a text. A name is active if it is in `active`, or the end of its replacement is still to
come. Arguments are expanded by themselves. -/
def expand (macros : String → Option Macro) : Nat → List String → Text → Except Failure Text
  | 0, _, _ => .error .fuel
  | _ + 1, _, [] => .ok []
  | fuel + 1, active, .done _ :: ts => expand macros fuel active ts
  | fuel + 1, active, .word name :: ts =>
      match macros name with
      | none => (expand macros fuel active ts).map (.word name :: ·)
      | some m =>
          if name ∈ active ++ doneNames ts then (expand macros fuel active ts).map (.painted name :: ·)
          else
            match m.invocation ts with
            | .uncalled => (expand macros fuel active ts).map (.word name :: ·)
            | .malformed => .error .malformed
            | .call args rest => do
                let expanded ← args.mapM (expand macros fuel (active ++ doneNames rest))
                match m.replace (List.zipWith Argument.mk args expanded) with
                | none => .error .malformed
                | some text => expand macros fuel active (text ++ .done name :: rest)
  | fuel + 1, active, t :: ts => (expand macros fuel active ts).map (t :: ·)

/-- The macros are defined, under their names. -/
def Defines (macros : String → Option Macro) (ms : List Macro) : Prop := ∀ m ∈ ms, macros m.name = some m

variable {macros : String → Option Macro} {active : List String} {ts rest out : Text} {name : String}

theorem map_eq_ok {ε α β : Type*} {x : Except ε α} {f : α → β} {b : β} (h : x.map f = .ok b) :
    ∃ a, x = .ok a ∧ f a = b := by
  cases x with
  | error e => cases h
  | ok a => exact ⟨a, rfl, Except.ok.inj h⟩

/-- More fuel does not change an expansion. -/
theorem expand_succ {fuel : Nat} (h : expand macros fuel active ts = .ok out) :
    expand macros (fuel + 1) active ts = .ok out := by
  induction fuel generalizing active ts out with
  | zero => cases h
  | succ fuel ih =>
      have hmap : ∀ {ts : Text} {t : Token}, (expand macros fuel active ts).map (t :: ·) = .ok out →
          (expand macros (fuel + 1) active ts).map (t :: ·) = .ok out := by
        intro ts t hts
        obtain ⟨rest, hrest, rfl⟩ := map_eq_ok hts
        rw [ih hrest]
        rfl
      match ts with
      | [] => exact h
      | .done _ :: ts => exact ih h
      | .painted _ :: ts => exact hmap h
      | .number _ :: ts => exact hmap h
      | .string _ :: ts => exact hmap h
      | .other _ :: ts => exact hmap h
      | .lparen :: ts => exact hmap h
      | .rparen :: ts => exact hmap h
      | .comma :: ts => exact hmap h
      | .word name :: ts =>
          rw [expand] at h ⊢
          split at h
          · exact hmap h
          · split at h
            · next hactive =>
                rw [if_pos hactive]
                exact hmap h
            · next hactive =>
                rw [if_neg hactive]
                split at h
                · exact hmap h
                · cases h
                · next args rest _ =>
                    cases hargs : args.mapM (expand macros fuel (active ++ doneNames rest)) with
                    | error e => rw [hargs] at h; cases h
                    | ok expanded =>
                        have hmore : args.mapM (expand macros (fuel + 1) (active ++ doneNames rest)) = .ok expanded :=
                          mapM_eq_ok_iff.mpr ((mapM_eq_ok_iff.mp hargs).imp fun _ _ harg => ih harg)
                        rw [hargs] at h
                        rw [hmore]
                        dsimp only [Except.bind, Bind.bind] at h ⊢
                        split at h
                        · cases h
                        · exact ih h

theorem expand_mono {fuel fuel' : Nat} (hle : fuel ≤ fuel') (h : expand macros fuel active ts = .ok out) :
    expand macros fuel' active ts = .ok out := by
  induction hle with
  | refl => exact h
  | step _ ih => exact expand_succ ih

/-- The text expands, given fuel enough. -/
def Expands (macros : String → Option Macro) (active : List String) (ts out : Text) : Prop :=
  ∃ fuel, expand macros fuel active ts = .ok out

/-- A text has one expansion at most. -/
theorem Expands.unique {out' : Text} (h : Expands macros active ts out) (h' : Expands macros active ts out') :
    out = out' := by
  obtain ⟨fuel, h⟩ := h
  obtain ⟨fuel', h'⟩ := h'
  have h := expand_mono (Nat.le_max_left fuel fuel') h
  have h' := expand_mono (Nat.le_max_right fuel fuel') h'
  exact Except.ok.inj (h.symm.trans h')

/-! ## The rules -/

theorem expands_nil : Expands macros active [] [] := ⟨1, rfl⟩

theorem Expands.done (h : Expands macros active ts out) : Expands macros active (.done name :: ts) out := by
  obtain ⟨fuel, h⟩ := h
  exact ⟨fuel + 1, h⟩

/-- Tokens that stay as they are. -/
def Token.fixed : Token → Bool
  | .word _ | .done _ => false
  | _ => true

theorem Expands.fixed {t : Token} (ht : t.fixed = true) (h : Expands macros active ts out) :
    Expands macros active (t :: ts) (t :: out) := by
  obtain ⟨fuel, h⟩ := h
  refine ⟨fuel + 1, ?_⟩
  cases t with
  | word name => cases ht
  | done name => cases ht
  | _ => rw [expand, h] <;> first | rfl | nofun

theorem Expands.word (hname : macros name = none) (h : Expands macros active ts out) :
    Expands macros active (.word name :: ts) (.word name :: out) := by
  obtain ⟨fuel, h⟩ := h
  refine ⟨fuel + 1, ?_⟩
  rw [expand, hname, h]
  rfl

/-- The name of a macro with parameters stays where no call follows. -/
theorem Expands.uncalled {m : Macro} (hname : macros name = some m) (hparams : m.params.isSome = true)
    (hactive : name ∉ active ++ doneNames ts) (hcall : (dropDone ts).head? ≠ some .lparen)
    (h : Expands macros active ts out) : Expands macros active (.word name :: ts) (.word name :: out) := by
  obtain ⟨fuel, h⟩ := h
  refine ⟨fuel + 1, ?_⟩
  have hinvocation : m.invocation ts = .uncalled := by
    obtain ⟨params, hparams⟩ := Option.isSome_iff_exists.mp hparams
    rw [Macro.invocation, hparams]
    dsimp only
    split
    · next hlparen =>
        rw [hlparen] at hcall
        exact absurd rfl hcall
    · rfl
  rw [expand, hname]
  dsimp only
  rw [if_neg hactive, hinvocation]
  dsimp only
  rw [h]
  rfl

/-- Arguments that each expand do so with the same fuel. -/
theorem exists_mapM_expand {args expanded : List Text} (h : List.Forall₂ (Expands macros active) args expanded) :
    ∃ fuel, args.mapM (expand macros fuel active) = .ok expanded := by
  have hall : ∃ fuel, List.Forall₂ (fun a b => expand macros fuel active a = .ok b) args expanded := by
    induction h with
    | nil => exact ⟨0, .nil⟩
    | cons ha _ ih =>
        obtain ⟨fuel, ha⟩ := ha
        obtain ⟨fuel', hall⟩ := ih
        refine ⟨max fuel fuel', .cons (expand_mono (Nat.le_max_left ..) ha) (hall.imp fun _ _ hb => ?_)⟩
        exact expand_mono (Nat.le_max_right ..) hb
  obtain ⟨fuel, hall⟩ := hall
  exact ⟨fuel, mapM_eq_ok_iff.mpr hall⟩

/-- A call is replaced, and what replaces it is scanned again with what follows. -/
theorem expands_invocation {m : Macro} {args expanded : List Text} {text : Text} (hname : macros name = some m)
    (hactive : name ∉ active ++ doneNames ts) (hinvocation : m.invocation ts = .call args rest)
    (hargs : List.Forall₂ (Expands macros (active ++ doneNames rest)) args expanded)
    (hreplace : m.replace (List.zipWith Argument.mk args expanded) = some text)
    (h : Expands macros active (text ++ .done name :: rest) out) : Expands macros active (.word name :: ts) out := by
  obtain ⟨fuel, hargs⟩ := exists_mapM_expand hargs
  obtain ⟨fuel', h⟩ := h
  refine ⟨max fuel fuel' + 1, ?_⟩
  have hargs : args.mapM (expand macros (max fuel fuel') (active ++ doneNames rest)) = .ok expanded :=
    mapM_eq_ok_iff.mpr ((mapM_eq_ok_iff.mp hargs).imp fun _ _ => expand_mono (Nat.le_max_left ..))
  rw [expand, hname]
  dsimp only
  rw [if_neg hactive, hinvocation]
  dsimp only
  rw [hargs]
  dsimp only [Bind.bind, Except.bind]
  rw [hreplace]
  exact expand_mono (Nat.le_max_right ..) h

/-- A macro without parameters is replaced where it stands. -/
theorem expands_object {m : Macro} {text : Text} (hname : macros name = some m) (hparams : m.params = none)
    (hactive : name ∉ active ++ doneNames ts) (hreplace : m.replace [] = some text)
    (h : Expands macros active (text ++ .done name :: ts) out) : Expands macros active (.word name :: ts) out := by
  have hinvocation : m.invocation ts = .call [] ts := by rw [Macro.invocation, hparams]
  exact expands_invocation hname hactive hinvocation .nil hreplace h

/-! ## The arguments of a call -/

/-- From behind its parenthesis on, a call has these arguments, and this follows it. -/
def Reads (params : Nat) (variadic : Bool) (ts : Text) (args : List Text) (rest : Text) : Prop :=
  ∃ all, collect 0 [] ts = some (all, rest) ∧ bind params variadic all = some args

theorem expands_call {m : Macro} {params : Nat} {args expanded : List Text} {text ts' : Text}
    (hname : macros name = some m) (hparams : m.params = some params) (hactive : name ∉ active ++ doneNames ts)
    (hcall : dropDone ts = .lparen :: ts') (hreads : Reads params m.variadic ts' args rest)
    (hargs : List.Forall₂ (Expands macros (active ++ doneNames rest)) args expanded)
    (hreplace : m.replace (List.zipWith Argument.mk args expanded) = some text)
    (h : Expands macros active (text ++ .done name :: rest) out) : Expands macros active (.word name :: ts) out := by
  obtain ⟨all, hcollect, hbind⟩ := hreads
  have hinvocation : m.invocation ts = .call args rest := by
    rw [Macro.invocation, hparams]
    dsimp only
    rw [hcall]
    dsimp only
    rw [hcollect]
    dsimp only
    rw [hbind]
  exact expands_invocation hname hactive hinvocation hargs hreplace h

/-- The parentheses open behind a token, if it doesn't close one that isn't open; without `commas` there is no
comma outside of them. -/
def Token.level (commas : Bool) (depth : Nat) : Token → Option Nat
  | .lparen => some (depth + 1)
  | .rparen =>
      match depth with
      | 0 => none
      | depth + 1 => some depth
  | .comma => if depth = 0 ∧ commas = false then none else some depth
  | .done _ => none
  | _ => some depth

/-- The parentheses open at the end of a text. -/
def level (commas : Bool) : Nat → Text → Option Nat
  | depth, [] => some depth
  | depth, t :: ts => (t.level commas depth).bind fun depth => level commas depth ts

/-- What a variadic call can read as the rest of its arguments. -/
def Balanced (text : Text) : Prop := level true 0 text = some 0

/-- What a call can read as one argument. -/
def IsArg (text : Text) : Prop := level false 0 text = some 0

instance (text : Text) : Decidable (Balanced text) := inferInstanceAs (Decidable (_ = _))
instance (text : Text) : Decidable (IsArg text) := inferInstanceAs (Decidable (_ = _))

section Level
variable {commas : Bool} {depth depth' : Nat} {a b : Text} {t : Token}

theorem level_cons_iff : level commas depth (t :: a) = some depth' ↔
    ∃ k, t.level commas depth = some k ∧ level commas k a = some depth' := Option.bind_eq_some_iff

theorem level_append (h : level commas depth a = some depth') :
    level commas depth (a ++ b) = level commas depth' b := by
  induction a generalizing depth with
  | nil =>
      cases h
      rfl
  | cons t a ih =>
      obtain ⟨k, ht, ha⟩ := level_cons_iff.mp h
      rw [List.cons_append, level, ht]
      exact ih ha

/-- Inside parentheses commas do not count. -/
theorem Token.level_deeper {k : Nat} (commas : Bool) (h : t.level true depth = some k) :
    t.level commas (depth + 1) = some (k + 1) := by
  cases t with
  | rparen =>
      cases depth with
      | zero => cases h
      | succ depth => simpa [Token.level] using h
  | done name => cases h
  | _ => simpa [Token.level] using h

theorem level_deeper (commas : Bool) (h : level true depth a = some depth') :
    level commas (depth + 1) a = some (depth' + 1) := by
  induction a generalizing depth with
  | nil =>
      cases h
      rfl
  | cons t a ih =>
      obtain ⟨k, ht, ha⟩ := level_cons_iff.mp h
      exact level_cons_iff.mpr ⟨k + 1, Token.level_deeper commas ht, ih ha⟩

theorem Token.level_commas {k : Nat} (h : t.level false depth = some k) : t.level true depth = some k := by
  cases t with
  | comma =>
      obtain ⟨-, h⟩ := Option.ite_none_left_eq_some.mp h
      simpa [Token.level] using h
  | _ => exact h

theorem level_commas (h : level false depth a = some depth') : level true depth a = some depth' := by
  induction a generalizing depth with
  | nil => exact h
  | cons t a ih =>
      obtain ⟨k, ht, ha⟩ := level_cons_iff.mp h
      exact level_cons_iff.mpr ⟨k, Token.level_commas ht, ih ha⟩

/-- Such a token is read as it is. -/
theorem collect_of_level {k : Nat} {arg : Text} (h : t.level false depth = some k) :
    collect depth arg (t :: ts) = collect k (arg ++ [t]) ts := by
  cases t with
  | lparen =>
      cases h
      rfl
  | rparen =>
      cases depth with
      | zero => cases h
      | succ depth =>
          cases h
          rfl
  | comma =>
      cases depth with
      | zero => cases h
      | succ depth =>
          cases h
          rfl
  | done name => cases h
  | _ =>
      cases h
      rfl

theorem collect_level {arg : Text} (h : level false depth a = some depth') :
    collect depth arg (a ++ ts) = collect depth' (arg ++ a) ts := by
  induction a generalizing depth arg with
  | nil =>
      cases h
      rw [List.append_nil, List.nil_append]
  | cons t a ih =>
      obtain ⟨k, ht, ha⟩ := level_cons_iff.mp h
      rw [List.cons_append, collect_of_level ht, ih ha, List.append_assoc, List.singleton_append]

/-- A token that no single argument has is the comma between two. -/
theorem Token.level_false_or_comma {k : Nat} (h : t.level true depth = some k) :
    t.level false depth = some k ∨ t = .comma ∧ depth = 0 ∧ k = 0 := by
  cases t with
  | comma =>
      cases depth with
      | zero =>
          cases h
          exact .inr ⟨rfl, rfl, rfl⟩
      | succ depth => exact .inl h
  | _ => exact .inl h

/-- A call reads a balanced text up to its end, and nothing of it is lost. -/
theorem collect_balanced (arg ts : Text) (h : level true depth a = some 0) :
    ∃ all, collect depth arg (a ++ .rparen :: ts) = some (all, ts) ∧ all ≠ [] ∧ joined all = arg ++ a := by
  induction a generalizing depth arg with
  | nil =>
      cases h
      exact ⟨[arg], rfl, nofun, by rw [joined_singleton, List.append_nil]⟩
  | cons t a ih =>
      obtain ⟨k, ht, ha⟩ := level_cons_iff.mp h
      rcases Token.level_false_or_comma ht with ht | ⟨rfl, rfl, rfl⟩
      · obtain ⟨all, hcollect, hne, hall⟩ := ih (arg ++ [t]) ha
        refine ⟨all, ?_, hne, by rw [hall, List.append_assoc, List.singleton_append]⟩
        rw [List.cons_append, collect_of_level ht, hcollect]
      · obtain ⟨all, hcollect, hne, hall⟩ := ih [] ha
        refine ⟨arg :: all, ?_, nofun, ?_⟩
        · show (collect 0 [] (a ++ .rparen :: ts)).map _ = _
          rw [hcollect]
          rfl
        · rw [joined_cons _ hne, hall]
          rfl

end Level

/-- Arguments, each with a comma behind it, and what follows them. -/
def listed : List Text → Text → Text
  | [], ts => ts
  | a :: as, ts => a ++ .comma :: listed as ts

/-- A call of `f` with these arguments that goes on with `ts`. -/
def invoke (f : Text) (args : List Text) (ts : Text) : Text := f ++ .lparen :: listed args ts

theorem listed_append (as : List Text) (ts rest : Text) : listed as ts ++ rest = listed as (ts ++ rest) := by
  induction as with
  | nil => rfl
  | cons a as ih => rw [listed, listed, List.append_assoc, List.cons_append, ih]

@[simp] theorem invoke_append (f : Text) (as : List Text) (ts rest : Text) :
    invoke f as ts ++ rest = invoke f as (ts ++ rest) := by
  rw [invoke, invoke, List.append_assoc, List.cons_append, listed_append]

section Reads
variable {params : Nat} {as args : List Text} {va last : Text}

theorem Reads.done {variadic : Bool} (h : Reads params variadic ts args rest) :
    Reads params variadic (.done name :: ts) args rest := h

theorem reads_balanced (h : Balanced va) : Reads 0 true (va ++ .rparen :: rest) [va] rest := by
  obtain ⟨all, hcollect, -, hall⟩ := collect_balanced [] rest h
  refine ⟨all, hcollect, ?_⟩
  show some ([] ++ [joined all]) = _
  rw [hall]
  rfl

theorem collect_listed (has : ∀ a ∈ as, IsArg a) :
    collect 0 [] (listed as ts) = (collect 0 [] ts).map fun r => (as ++ r.1, r.2) := by
  induction as with
  | nil => simp [listed]
  | cons a as ih =>
      have ha : collect 0 [] (a ++ .comma :: listed as ts) = collect 0 a (.comma :: listed as ts) :=
        collect_level (has a (List.mem_cons_self ..))
      rw [listed, ha]
      show (collect 0 [] (listed as ts)).map _ = _
      rw [ih fun b hb => has b (List.mem_cons_of_mem _ hb), Option.map_map]
      rfl

/-- The named arguments of a variadic call, and the rest of them. -/
theorem reads_variadic (hparams : params = as.length) (has : ∀ a ∈ as, IsArg a)
    (h : Reads 0 true ts [va] rest) : Reads params true (listed as ts) (as ++ [va]) rest := by
  obtain ⟨all, hcollect, hbind⟩ := h
  have hall : joined all = va := by
    have hbind : some ([] ++ [joined all]) = some [va] := hbind
    simpa using hbind
  refine ⟨as ++ all, by rw [collect_listed has, hcollect]; rfl, ?_⟩
  unfold bind
  rw [if_pos rfl, if_neg (by simp [hparams]), hparams, List.take_left, List.drop_left, hall]

theorem collect_concat (has : ∀ a ∈ as, IsArg a) (hlast : IsArg last) :
    collect 0 [] (listed as (last ++ .rparen :: rest)) = some (as ++ [last], rest) := by
  have hcollect : collect 0 [] (last ++ .rparen :: rest) = some ([last], rest) := collect_level hlast
  rw [collect_listed has, hcollect]
  rfl

/-- There is nothing for the `...` of a variadic call. -/
theorem reads_omitted (hparams : params = as.length + 1) (has : ∀ a ∈ as, IsArg a) (hlast : IsArg last) :
    Reads params true (listed as (last ++ .rparen :: rest)) (as ++ [last, []]) rest := by
  have hlength : (as ++ [last]).length = params := by rw [hparams, List.length_append]; rfl
  refine ⟨as ++ [last], collect_concat has hlast, ?_⟩
  unfold bind
  rw [if_pos rfl, if_neg (by omega), ← hlength, List.take_length, List.drop_length]
  simp [joined]

theorem reads_named (hparams : params = as.length + 1) (has : ∀ a ∈ as, IsArg a) (hlast : IsArg last) :
    Reads params false (listed as (last ++ .rparen :: rest)) (as ++ [last]) rest := by
  have hlength : (as ++ [last]).length = params := by rw [hparams, List.length_append]; rfl
  refine ⟨as ++ [last], collect_concat has hlast, ?_⟩
  unfold bind
  rw [if_neg Bool.false_ne_true, if_neg (by omega), if_pos hlength]

theorem joined_concat (as : List Text) (last : Text) : joined (as ++ [last]) = listed as last := by
  induction as with
  | nil => rw [List.nil_append, joined_singleton, listed]
  | cons a as ih =>
      have hne : as ++ [last] ≠ [] := by simp
      rw [List.cons_append, joined_cons _ hne, ih, listed]

theorem joined_append {bs : List Text} (has : as ≠ []) (hbs : bs ≠ []) :
    joined (as ++ bs) = joined as ++ .comma :: joined bs := by
  induction as with
  | nil => exact absurd rfl has
  | cons a as ih =>
      cases as with
      | nil => rw [List.singleton_append, joined_cons _ hbs, joined_singleton]
      | cons a' as =>
          have hne : a' :: as ++ bs ≠ [] := by simp
          rw [List.cons_append, joined_cons _ hne, ih (List.cons_ne_nil _ _), joined_cons _ (List.cons_ne_nil _ _)]
          simp

theorem collect_joined (hne : args ≠ []) (hargs : ∀ a ∈ args, IsArg a) :
    collect 0 [] (joined args ++ .rparen :: rest) = some (args, rest) := by
  obtain ⟨as, last, rfl⟩ := (List.eq_nil_or_concat' args).resolve_left hne
  rw [joined_concat, listed_append]
  exact collect_concat (fun a ha => hargs a (by simp [ha])) (hargs last (by simp))

/-- A variadic call reads all its arguments, those for `...` as one. -/
theorem reads_joined_variadic (hne : args ≠ []) (hparams : params ≤ args.length) (hargs : ∀ a ∈ args, IsArg a) :
    Reads params true (joined args ++ .rparen :: rest) (args.take params ++ [joined (args.drop params)]) rest := by
  refine ⟨args, collect_joined hne hargs, ?_⟩
  unfold bind
  rw [if_pos rfl, if_neg (by omega)]

theorem reads_joined (hne : args ≠ []) (hparams : params = args.length) (hargs : ∀ a ∈ args, IsArg a) :
    Reads params false (joined args ++ .rparen :: rest) args rest := by
  have hlength : args.length ≠ 0 := fun h => hne (List.length_eq_zero_iff.mp h)
  refine ⟨args, collect_joined hne hargs, ?_⟩
  unfold bind
  rw [if_neg Bool.false_ne_true, if_neg (by omega), if_pos hparams.symm]

end Reads

/-! ## Texts that expand to themselves -/

/-- No name is active. -/
def Free (names active : List String) (ts : Text) : Prop := ∀ name ∈ names, name ∉ active ++ doneNames ts

/-- No call begins in the text: its words are no macros, or macros with parameters among `uses` with no
parenthesis behind them. -/
def Inert (macros : String → Option Macro) (uses : List String) : Text → Prop
  | [] => True
  | .word name :: ts =>
      (macros name = none ∨ name ∈ uses ∧ ts.head? ≠ some .lparen ∧
        ∃ m, macros name = some m ∧ m.params.isSome = true) ∧ Inert macros uses ts
  | .done _ :: _ => False
  | _ :: ts => Inert macros uses ts

@[simp] theorem doneNames_append (a b : Text) : doneNames (a ++ b) = doneNames a ++ doneNames b := by
  induction a with
  | nil => rfl
  | cons t a ih => cases t <;> simp [doneNames, ih]

theorem doneNames_of_level {commas : Bool} {a : Text} {depth depth' : Nat} (h : level commas depth a = some depth') :
    doneNames a = [] := by
  induction a generalizing depth with
  | nil => rfl
  | cons t a ih =>
      obtain ⟨k, ht, ha⟩ := level_cons_iff.mp h
      cases t with
      | done name => cases ht
      | _ => exact ih ha

theorem doneNames_listed {as : List Text} (has : ∀ a ∈ as, IsArg a) : doneNames (listed as ts) = doneNames ts := by
  induction as with
  | nil => rfl
  | cons a as ih =>
      rw [listed, doneNames_append, doneNames_of_level (has a (List.mem_cons_self ..))]
      exact ih fun b hb => has b (List.mem_cons_of_mem _ hb)

variable {uses : List String}

theorem dropDone_append_of_inert {t : Token} {a : Text} (h : Inert macros uses (t :: a)) :
    dropDone (t :: a ++ rest) = t :: a ++ rest := by
  cases t with
  | done name => cases h
  | _ => rfl

theorem doneNames_of_inert {a : Text} (h : Inert macros uses a) : doneNames a = [] := by
  induction a with
  | nil => rfl
  | cons t a ih =>
      cases t with
      | done name => cases h
      | word name => exact ih h.2
      | _ => exact ih h

/-- An inert text stays as it is, if no parenthesis follows it that its last word could take for a call. -/
theorem Expands.inert {a : Text} (ha : Inert macros uses a) (hfree : Free uses active rest)
    (hcall : (dropDone rest).head? ≠ some .lparen) (h : Expands macros active rest out) :
    Expands macros active (a ++ rest) (a ++ out) := by
  induction a with
  | nil => exact h
  | cons t a ih =>
      cases t with
      | done name => cases ha
      | word name =>
          obtain ⟨hname, ha⟩ := ha
          rcases hname with hname | ⟨huses, hhead, m, hname, hparams⟩
          · exact .word hname (ih ha)
          · refine .uncalled hname hparams ?_ ?_ (ih ha)
            · show name ∉ active ++ doneNames (a ++ rest)
              rw [doneNames_append, doneNames_of_inert ha]
              exact hfree name huses
            · cases a with
              | nil => exact hcall
              | cons t a =>
                  show (dropDone (t :: a ++ rest)).head? ≠ some .lparen
                  rw [dropDone_append_of_inert ha]
                  exact hhead
      | _ => exact .fixed rfl (ih ha)

theorem expands_inert {a : Text} (ha : Inert macros uses a) (hfree : ∀ name ∈ uses, name ∉ active) :
    Expands macros active a a := by
  have hfree : Free uses active [] := fun name hname => by
    rw [doneNames, List.append_nil]
    exact hfree name hname
  have h := Expands.inert ha hfree nofun expands_nil
  rwa [List.append_nil] at h

theorem Expands.self {a : Text} (ha : Inert macros uses a) (hfree : Free uses active []) :
    Expands macros active a a :=
  expands_inert ha fun name hname hmem => hfree name hname (List.mem_append_left _ hmem)

theorem forall₂_inert {args : List Text} (hargs : ∀ a ∈ args, Inert macros uses a)
    (hfree : ∀ name ∈ uses, name ∉ active) : List.Forall₂ (Expands macros active) args args :=
  List.forall₂_same.mpr fun a ha => expands_inert (hargs a ha) hfree

theorem Inert.mono {uses' : List String} {a : Text} (ha : Inert macros uses a) (hsub : uses ⊆ uses') :
    Inert macros uses' a := by
  induction a with
  | nil => trivial
  | cons t a ih =>
      cases t with
      | done name => cases ha
      | word name => exact ⟨ha.1.imp_right fun huses => ⟨hsub huses.1, huses.2⟩, ih ha.2⟩
      | _ => exact ih ha

theorem Inert.append {a b : Text} (ha : Inert macros uses a) (hb : Inert macros uses b)
    (hcall : b.head? ≠ some .lparen) : Inert macros uses (a ++ b) := by
  induction a with
  | nil => exact hb
  | cons t a ih =>
      cases t with
      | done name => cases ha
      | word name =>
          refine ⟨ha.1.imp_right fun huses => ⟨huses.1, ?_, huses.2.2⟩, ih ha.2⟩
          cases a with
          | nil => exact hcall
          | cons t a => exact huses.2.1
      | _ => exact ih ha

/-- A call that reads its named arguments as they are. -/
theorem expands_invoke {m : Macro} {params : Nat} {as args expanded : List Text} {text : Text}
    (hname : macros name = some m) (hparams : m.params = some params) (has : ∀ a ∈ as, IsArg a)
    (hactive : name ∉ active ++ doneNames ts) (hreads : Reads params m.variadic (listed as ts) args rest)
    (hargs : List.Forall₂ (Expands macros (active ++ doneNames rest)) args expanded)
    (hreplace : m.replace (List.zipWith Argument.mk args expanded) = some text)
    (h : Expands macros active (text ++ .done name :: rest) out) :
    Expands macros active (invoke [.word name] as ts) out := by
  refine expands_call hname hparams ?_ rfl hreads hargs hreplace h
  show name ∉ active ++ doneNames (listed as ts)
  rwa [doneNames_listed has]

/-! ## The active names -/

/-- Of these names only those in `busy` are active. -/
def Busy (names busy active : List String) (ts : Text) : Prop :=
  ∀ name ∈ names, name ∈ active ++ doneNames ts → name ∈ busy

section Busy
variable {names busy : List String}

theorem Busy.idle (h : Busy names busy active ts) (hname : name ∈ names) (hbusy : name ∉ busy) :
    name ∉ active ++ doneNames ts := fun hmem => hbusy (h name hname hmem)

theorem Busy.free {names' : List String} (h : Busy names busy active ts) (hsub : names' ⊆ names)
    (hbusy : ∀ name ∈ names', name ∉ busy) : Free names' active ts :=
  fun name hname => h.idle (hsub hname) (hbusy name hname)

/-- While a macro is replaced, it is active too. -/
theorem Busy.done (h : Busy names busy active ts) (name : String) :
    Busy names (name :: busy) active (.done name :: ts) := by
  intro other hother hmem
  rw [doneNames, List.mem_append, List.mem_cons] at hmem
  rcases hmem with hmem | rfl | hmem
  · exact List.mem_cons_of_mem _ (h other hother (List.mem_append_left _ hmem))
  · exact List.mem_cons_self ..
  · exact List.mem_cons_of_mem _ (h other hother (List.mem_append_right _ hmem))

theorem Free.toBusy (h : Free names active ts) : Busy names [] active ts :=
  fun name hname hmem => absurd hmem (h name hname)

theorem Busy.congr {ts' : Text} (h : Busy names busy active ts) (hdone : doneNames ts' = doneNames ts) :
    Busy names busy active ts' := by
  unfold Busy
  rwa [hdone]

/-- The arguments of a call are expanded while what encloses it is active. -/
theorem Busy.scan (h : Busy names busy active ts) : Busy names busy (active ++ doneNames ts) [] := by
  unfold Busy
  rwa [doneNames, List.append_nil]

end Busy

/-! ## Joining texts -/

theorem IsArg.balanced {a : Text} (h : IsArg a) : Balanced a := level_commas h

theorem IsArg.append {a b : Text} (ha : IsArg a) (hb : IsArg b) : IsArg (a ++ b) := (level_append ha).trans hb

theorem Balanced.append {a b : Text} (ha : Balanced a) (hb : Balanced b) : Balanced (a ++ b) :=
  (level_append ha).trans hb

/-- In parentheses, a text is read as one argument. -/
theorem Balanced.parenthesised {a : Text} (h : Balanced a) : IsArg (.lparen :: (a ++ [.rparen])) := by
  show level false 1 (a ++ [.rparen]) = some 0
  rw [level_append (level_deeper false h)]
  rfl

theorem paste_word (ts : Text) (a b : String) :
    paste (ts ++ [Token.word a]) [.word b] = some (ts ++ [.word (a ++ b)]) := by
  unfold paste
  rw [List.getLast?_concat]
  show some ((ts ++ [Token.word a]).dropLast ++ [Token.word (a ++ b)]) = _
  rw [List.dropLast_concat]

theorem doneNames_invoke {f : Text} {as : List Text} (hf : doneNames f = []) (has : ∀ a ∈ as, IsArg a) :
    doneNames (invoke f as ts) = doneNames ts := by
  rw [invoke, doneNames_append, hf, List.nil_append]
  exact doneNames_listed has

theorem listed_balanced {as : List Text} {last : Text} (has : ∀ a ∈ as, IsArg a) (hlast : Balanced last) :
    Balanced (listed as last) := by
  induction as with
  | nil => exact hlast
  | cons a as ih =>
      have ha : Balanced a := (has a (List.mem_cons_self ..)).balanced
      exact (level_append ha).trans (ih fun b hb => has b (List.mem_cons_of_mem _ hb))

/-- A call is one argument. -/
theorem invoke_isArg {as : List Text} {last : Text} (name : String) (has : ∀ a ∈ as, IsArg a) (hlast : Balanced last) :
    IsArg (invoke [.word name] as (last ++ [.rparen])) := by
  show level false 1 (listed as (last ++ [.rparen])) = some 0
  rw [← listed_append]
  exact level_append (level_deeper false (listed_balanced has hlast))

/-- Macros with different names define each other's table. -/
theorem defines_of_nodup {ms : List Macro} (h : (ms.map Macro.name).Nodup) :
    Defines (fun name => ms.find? fun m => m.name = name) ms := by
  intro m hm
  induction ms with
  | nil => cases hm
  | cons m' ms ih =>
      obtain ⟨hnot, hrest⟩ := List.nodup_cons.mp h
      rcases List.mem_cons.mp hm with rfl | hm
      · exact List.find?_cons_of_pos (by simp)
      · have hne : m'.name ≠ m.name := fun heq => hnot (heq ▸ List.mem_map_of_mem hm)
        show List.find? _ (m' :: ms) = some m
        rw [List.find?_cons_of_neg (by simpa using hne)]
        exact ih hrest hm

/-! ## Texts that stand for others -/

/-- Whatever follows it, the text expands to this one. -/
def Stands (macros : String → Option Macro) (uses : List String) (text result : Text) : Prop :=
  ∀ active rest out, Free uses active rest → Expands macros active rest out →
    Expands macros active (text ++ rest) (result ++ out)

/-- And no replacement ends in it. -/
structure Part (macros : String → Option Macro) (uses : List String) (text result : Text) : Prop where
  stands : Stands macros uses text result
  done : doneNames text = []

/-- A call of `f` with these arguments stands for this. -/
def Computes (macros : String → Option Macro) (uses : List String) (f : Text) (args : List Text)
    (last result : Text) : Prop :=
  ∀ active rest out, Free uses active rest → Expands macros active rest out →
    Expands macros active (invoke f args (last ++ .rparen :: rest)) (result ++ out)

section Stands
variable {uses' : List String} {text result a b : Text}

theorem Free.mono (h : Free uses active ts) (hsub : uses' ⊆ uses) : Free uses' active ts :=
  fun name hname => h name (hsub hname)

/-- While a macro is replaced, the others are not active. -/
theorem Free.done (h : Free uses active ts) (hname : name ∉ uses) : Free uses active (.done name :: ts) := by
  intro other hother hmem
  rw [doneNames, List.mem_append, List.mem_cons] at hmem
  rcases hmem with hmem | rfl | hmem
  · exact h other hother (List.mem_append_left _ hmem)
  · exact hname hother
  · exact h other hother (List.mem_append_right _ hmem)

theorem Free.congr {ts' : Text} (h : Free uses active ts) (hdone : doneNames ts' = doneNames ts) :
    Free uses active ts' := by
  unfold Free
  rwa [hdone]

theorem Free.scan (h : Free uses active ts) : Free uses (active ++ doneNames ts) [] := by
  unfold Free
  rwa [doneNames, List.append_nil]

theorem Stands.expands (h : Stands macros uses text result) (hfree : Free uses active []) :
    Expands macros active text result := by
  have h := h active [] [] hfree expands_nil
  rwa [List.append_nil, List.append_nil] at h

theorem Stands.mono (h : Stands macros uses text result) (hsub : uses ⊆ uses') : Stands macros uses' text result :=
  fun active rest out hfree hrest => h active rest out (hfree.mono hsub) hrest

theorem Stands.append {a' b' : Text} (ha : Stands macros uses a a') (hb : Stands macros uses b b')
    (hdone : doneNames b = []) : Stands macros uses (a ++ b) (a' ++ b') := by
  intro active rest out hfree hrest
  have hfree' : Free uses active (b ++ rest) := hfree.congr (by rw [doneNames_append, hdone, List.nil_append])
  rw [List.append_assoc, List.append_assoc]
  exact ha active _ _ hfree' (hb active _ _ hfree hrest)

theorem Computes.stands {f last : Text} {args : List Text} (h : Computes macros uses f args last result) :
    Stands macros uses (invoke f args (last ++ [.rparen])) result := by
  intro active rest out hfree hrest
  rw [invoke_append, List.append_assoc]
  exact h active rest out hfree hrest

/-- A text without the name of a macro stays as it is. -/
theorem Expands.plain (h : Expands macros active rest out) (ha : Inert macros [] a) :
    Expands macros active (a ++ rest) (a ++ out) := by
  induction a with
  | nil => exact h
  | cons t a ih =>
      cases t with
      | done name => cases ha
      | word name =>
          rcases ha.1 with hname | ⟨hname, -⟩
          · exact .word hname (ih ha.2)
          · cases hname
      | _ => exact .fixed rfl (ih ha)

theorem expands_plain (ha : Inert macros [] a) : Expands macros active a a := by
  have h : Expands macros active (a ++ []) (a ++ []) := expands_nil.plain ha
  rwa [List.append_nil] at h

theorem forall₂_plain {args : List Text} (hargs : ∀ a ∈ args, Inert macros [] a) :
    List.Forall₂ (Expands macros active) args args :=
  List.forall₂_same.mpr fun a ha => expands_plain (hargs a ha)

/-- A token that is no word but one of these. -/
def Token.among (names : List String) : Token → Bool
  | .word name => name ∈ names
  | .done _ => false
  | _ => true

theorem inert_of_among {names : List String} (hnames : ∀ name ∈ names, macros name = none)
    (h : a.all (Token.among names) = true) : Inert macros [] a := by
  induction a with
  | nil => trivial
  | cons t a ih =>
      rw [List.all_cons, Bool.and_eq_true] at h
      cases t with
      | done name => cases h.1
      | word name => exact ⟨.inl (hnames name (of_decide_eq_true h.1)), ih h.2⟩
      | _ => exact ih h.2

theorem stands_plain (ha : Inert macros [] a) : Stands macros uses a a := fun _ _ _ _ h => h.plain ha

theorem Part.append {a' b' : Text} (ha : Part macros uses a a') (hb : Part macros uses b b') :
    Part macros uses (a ++ b) (a' ++ b') :=
  ⟨ha.stands.append hb.stands hb.done, by rw [doneNames_append, ha.done, hb.done, List.append_nil]⟩

theorem part_plain (ha : Inert macros [] a) : Part macros uses a a := ⟨stands_plain ha, doneNames_of_inert ha⟩

/-- A call stands for what its replacement does. -/
theorem computes_call {m : Macro} {params : Nat} {as args expanded : List Text} {last : Text}
    (hname : macros name = some m) (hparams : m.params = some params) (huse : name ∈ uses) (hsub : uses' ⊆ uses)
    (hnot : name ∉ uses') (has : ∀ a ∈ as, IsArg a) (hlast : doneNames last = [])
    (hreads : ∀ rest, Reads params m.variadic (listed as (last ++ .rparen :: rest)) args rest)
    (hargs : ∀ active, Free uses active [] → List.Forall₂ (Expands macros active) args expanded)
    (hreplace : m.replace (List.zipWith Argument.mk args expanded) = some text)
    (htext : Stands macros uses' text result) : Computes macros uses [.word name] as last result := by
  intro active rest out hfree h
  refine expands_invoke hname hparams has ?_ (hreads rest) (hargs _ hfree.scan) hreplace
    (htext active _ out ((hfree.mono hsub).done hnot) (.done h))
  rw [doneNames_append, hlast]
  exact hfree name huse

/-- A call with plain arguments, whose replacement is plain. -/
theorem computes_of_replace {m : Macro} {params : Nat} {as args : List Text} {last : Text}
    (hname : macros name = some m) (hparams : m.params = some params) (huse : name ∈ uses)
    (has : ∀ a ∈ as, IsArg a) (hlast : Inert macros [] last)
    (hreads : ∀ rest, Reads params m.variadic (listed as (last ++ .rparen :: rest)) args rest)
    (hargs : ∀ a ∈ args, Inert macros [] a)
    (hreplace : m.replace (List.zipWith Argument.mk args args) = some text) (htext : Inert macros [] text) :
    Computes macros uses [.word name] as last text :=
  computes_call hname hparams huse (List.nil_subset _) List.not_mem_nil has (doneNames_of_inert hlast) hreads
    (fun _ _ => forall₂_plain hargs) hreplace (stands_plain htext)

/-- A call of a macro that takes `...` alone. -/
theorem computes_vaArgs {m : Macro} {last last' : Text} (hname : macros name = some m) (hparams : m.params = some 0)
    (hvariadic : m.variadic = true) (huse : name ∈ uses) (hsub : uses' ⊆ uses) (hnot : name ∉ uses')
    (hlast : Balanced last) (hscan : ∀ active, Free uses active [] → Expands macros active last last')
    (hreplace : m.replace [⟨last, last'⟩] = some text) (htext : Stands macros uses' text result) :
    Computes macros uses [.word name] [] last result := by
  refine computes_call hname hparams huse hsub hnot (List.forall_mem_nil _) (doneNames_of_level hlast) (fun rest => ?_)
    (fun active hfree => .cons (hscan active hfree) .nil) hreplace htext
  rw [hvariadic]
  exact reads_balanced hlast

end Stands

end Fipper.Lib.Preprocessor
