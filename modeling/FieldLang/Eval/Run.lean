/-
Running programs.

* `evalExpr`, `evalArgs` : the value of an expression, and the environment it leaves;
* `State`, `execute` : running a statement;
* `traceAll` : the states after each of a row of statements;
* `runAt` : the number that a program yields at a point.

Design notes: the result of a program is the last value that any statement had. Where a
condition holds at some points only, both branches run, each in an environment of its own,
and the environments are merged point by point; the right operand of a logical operator is
treated in the same way. The depth of the recursion has no limit, as the stack of a host would set one.
-/
import FieldLang.Eval.Env
import FieldLang.Eval.Error

namespace FieldLang

variable {σ β : Type} [Carrier σ β]

/-- The function of two numbers that an arithmetic operator stands for. -/
def BinOp.arithmetic? : BinOp → Option (Float → Float → Float)
  | .add => some (· + ·)
  | .sub => some (· - ·)
  | .mul => some (· * ·)
  | .div => some (· / ·)
  | .pow => some Float.pow
  | _ => none

/-- The relation between two numbers that an operator stands for. -/
def BinOp.relation? : BinOp → Option (Float → Float → Bool)
  | .greater => some fun x y => y < x
  | .greaterEq => some fun x y => y ≤ x
  | .less => some fun x y => x < y
  | .lessEq => some fun x y => x ≤ y
  | .eq => some (· == ·)
  | .notEq => some (· != ·)
  | _ => none

/-- The relation between two truth values that an operator stands for. -/
def BinOp.truthRelation? : BinOp → Option (Bool → Bool → Bool)
  | .eq => some (· == ·)
  | .notEq => some (· != ·)
  | _ => none

/-- The value of an operator that evaluates both operands. -/
def applyBinary (op : BinOp) (lhs rhs : Value σ β) : Except EvalError (Value σ β) :=
  let mismatch := .error (.operandKinds op lhs.kind (some rhs.kind))
  match lhs, rhs with
  | .scalar x, .scalar y =>
    match op.arithmetic?, op.relation? with
    | some f, _ => .ok (.scalar (Carrier.zip β f x y))
    | none, some r => .ok (.boolean (Carrier.compare r x y))
    | none, none => mismatch
  | .boolean b, .boolean b' =>
    match op.truthRelation? with
    | some r => .ok (.boolean (Carrier.zipTruth σ r b b'))
    | none => mismatch
  | _, _ => mismatch

/-- The operators that may leave their right operand alone. -/
inductive Connective where
  | and | or
deriving Repr, DecidableEq

namespace Connective

/-- The operator of a connective. -/
def toBinOp : Connective → BinOp
  | and => .and
  | or => .or

/-- The function of two truth values that a connective stands for. -/
def apply : Connective → Bool → Bool → Bool
  | and => Bool.and
  | or => Bool.or

variable (σ) in
/-- Where the right operand runs. -/
def runsRight (connective : Connective) (lhs : β) : β :=
  match connective with
  | and => lhs
  | or => Carrier.opposite σ lhs

end Connective

/-- The connective that an operator is. -/
def BinOp.connective? : BinOp → Option Connective
  | .and => some .and
  | .or => some .or
  | _ => none

/-- The value of a connective whose right operand has run. -/
def applyConnective (connective : Connective) (lhs : β) (rhs : Value σ β) :
    Except EvalError (Value σ β) :=
  match rhs with
  | .boolean b => .ok (.boolean (Carrier.zipTruth σ connective.apply lhs b))
  | rhs => .error (.operandKinds connective.toBinOp .boolean (some rhs.kind))

/-- The value of a function with a given meaning. -/
def Meaning.apply {n : Nat} (args : Vector σ n) : Meaning n → Except CallError (Value σ β)
  | .scalar c => .ok (.scalar (Carrier.apply β c args))
  | .vector cs => Value.ofAxes (cs.map fun c => Carrier.apply β c args)

/-- Whether the argument that counts octaves, if there is one, can do so. -/
def checkOctaveArgument {n : Nat} (f : Builtin) (args : Vector σ n) : Except CallError Unit :=
  match f.octaveArgument n with
  | some i => Carrier.checkOctaves β (args.get i)
  | none => .ok ()

/-- The value of a function of `n` arguments. -/
def applyBuiltinTo {n : Nat} (angles : Angles) (f : Builtin) (args : Vector σ n) :
    Except CallError (Value σ β) := do
  let meaning ← f.meaning angles n
  checkOctaveArgument (β := β) f args
  meaning.apply args

/-- The value of a function. -/
def applyBuiltin (angles : Angles) (f : Builtin) (args : List σ) :
    Except CallError (Value σ β) :=
  applyBuiltinTo angles f (.mk args.toArray rfl)

/-- Binds a variable that may be assigned. -/
def assign (env : Env σ β) (name : String) (v : Value σ β) : Except EvalError (Env σ β) :=
  if readOnlyNames.contains name then .error (.readOnly name) else .ok (env.set name v)

/-- Binds variables one after the other. -/
def assignAll (env : Env σ β) : List (String × Value σ β) → Except EvalError (Env σ β)
  | [] => .ok env
  | (name, v) :: rest => do assignAll (← assign env name v) rest

/-- What a step adds to a variable. -/
def StepOp.apply : StepOp → Float → Float
  | .increment, x => x + 1
  | .decrement, x => x - 1

variable (angles : Angles)

mutual

/-- The value of an expression, and the environment that its steps leave. -/
def evalExpr (env : Env σ β) : Expr → Except EvalError (Value σ β × Env σ β)
  | .number value => .ok (.scalar (Carrier.const β value), env)
  | .variable name =>
    match env.get? name with
    | some v => .ok (v, env)
    | none => .error (.unbound name)
  | .negate operand => do
    let (v, env) ← evalExpr env operand
    match v with
    | .scalar x => return (.scalar (Carrier.map β (fun x => -x) x), env)
    | v => .error (.negatedKind v.kind)
  | .step name op =>
    match env.get? name with
    | none => .error (.unbound name)
    | some (.scalar x) => do
      let v : Value σ β := .scalar (Carrier.map β op.apply x)
      return (v, ← assign env name v)
    | some v => .error (.steppedKind op name v.kind)
  | .call f args =>
    if f.arity.accepts args.length then do
      let (xs, env) ← evalArgs env f 1 args
      let v ← (applyBuiltin angles f xs).mapError .call
      return (v, env)
    else .error (.arity f args.length)
  | .conditional condition ifTrue ifFalse => do
    let (c, env) ← evalExpr env condition
    match c with
    | .boolean mask =>
      match Carrier.verdict σ mask with
      | .always | .vacuous => evalExpr env ifTrue
      | .never => evalExpr env ifFalse
      | .mixed => do
        let (v, envTrue) ← evalExpr env ifTrue
        let (v', envFalse) ← evalExpr env ifFalse
        match v.choose? mask v' with
        | some chosen => return (chosen, Env.merge mask envTrue envFalse)
        | none => .error (.branchKinds v.kind v'.kind)
    | c => .error (.conditionKind c.kind)
  | .binary op lhs rhs => do
    let (v, env) ← evalExpr env lhs
    match op.connective? with
    | none => do
      let (v', env) ← evalExpr env rhs
      return (← applyBinary op v v', env)
    | some connective =>
      match v with
      | .boolean b =>
        let runs := connective.runsRight σ b
        match Carrier.verdict σ runs with
        | .never | .vacuous => return (.boolean b, env)
        | .always => do
          let (v', env) ← evalExpr env rhs
          return (← applyConnective connective b v', env)
        | .mixed => do
          let (v', envRight) ← evalExpr env rhs
          return (← applyConnective connective b v', Env.merge runs envRight env)
      | v => .error (.operandKinds op v.kind none)
  | .misplaced display => .error (.notExpression display)

/-- The numbers that the arguments of a function have, from a given place on. -/
def evalArgs (env : Env σ β) (f : Builtin) (place : Nat) :
    List Expr → Except EvalError (List σ × Env σ β)
  | [] => .ok ([], env)
  | e :: es => do
    let (v, env) ← evalExpr env e
    match v with
    | .scalar x => do
      let (xs, env) ← evalArgs env f (place + 1) es
      return (x :: xs, env)
    | v => .error (.argumentKind f place v.kind)

end

/-! ### Statements -/

/-- The bindings of a run, and the last value that a statement had. -/
structure State (σ β : Type) where
  env : Env σ β
  last : Option (Value σ β)

/-- The values of a row of expressions. -/
def evalAll (env : Env σ β) : List Expr → Except EvalError (List (Value σ β) × Env σ β)
  | [] => .ok ([], env)
  | e :: es => do
    let (v, env) ← evalExpr angles env e
    let (vs, env) ← evalAll env es
    return (v :: vs, env)

mutual

/-- Runs a statement. -/
def execute (s : State σ β) : Stmt → Except EvalError (State σ β)
  | .block statements => executeAll s statements
  | .empty => .ok s
  | .result value => do
    let (v, env) ← evalExpr angles s.env value
    return ⟨env, some v⟩
  | .assign name value => do
    let (v, env) ← evalExpr angles s.env value
    return ⟨← assign env name v, some v⟩
  | .unpack names value => do
    let (v, env) ← evalExpr angles s.env value
    match v.axes? with
    | some axes =>
      if axes.length = names.length then
        return ⟨← assignAll env (names.zip (axes.map .scalar)), some v⟩
      else .error (.unpackKind v.kind names)
    | none => .error (.unpackKind v.kind names)
  | .assignEach names values => do
    let (vs, env) ← evalAll angles s.env values
    let env ← assignAll env (names.zip vs)
    return ⟨env, vs.getLast?.or s.last⟩
  | .misplaced display => .error (.notStatement display)

/-- Runs a row of statements. -/
def executeAll (s : State σ β) : List Stmt → Except EvalError (State σ β)
  | [] => .ok s
  | first :: rest => do executeAll (← execute s first) rest

end

/-- The states after each of a row of statements, up to the first that fails, and how the run
ends. -/
def traceAll (s : State σ β) : List Stmt → List (State σ β) × Except EvalError (State σ β)
  | [] => ([], .ok s)
  | first :: rest =>
    match execute angles s first with
    | .error e => ([], .error e)
    | .ok s' =>
      let (states, outcome) := traceAll s' rest
      (s' :: states, outcome)

/-- The bindings at the beginning of a run at the point `(x, y, z)`. -/
def initialEnv (x y z : σ) : Env σ β :=
  [("x", .scalar x), ("y", .scalar y), ("z", .scalar z),
   ("a0", .scalar (Carrier.const β angles.a0)), ("a1", .scalar (Carrier.const β angles.a1))]

/-- The state at the beginning of a run. -/
def initialState (x y z : σ) : State σ β := ⟨initialEnv angles x y z, none⟩

/-- The number that a finished run yields. -/
def State.result (s : State σ β) : Except EvalError σ :=
  match s.last with
  | none => .error .noExpression
  | some (.scalar x) => .ok x
  | some v => .error (.resultKind v.kind)

/-- The number that a program yields at the point `(x, y, z)`. -/
def runAt (program : Stmt) (x y z : σ) : Except EvalError σ := do
  let s ← execute (β := β) angles (initialState angles x y z) program
  s.result

end FieldLang
