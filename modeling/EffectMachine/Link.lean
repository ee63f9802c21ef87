/-
Linking a program.

When all packages have been linked, the program is completed: code that
initialises every package in the order of completion and then calls the main
method, a class for integers if no package declares one, the builtin table, and
the dispatch table.

* `Linker.startCode`: the code that starts a program;
* `Linker.builtinTable`: the class of each builtin kind, which only one class
  may declare;
* `Linker.complete`: the program of what has been linked;
* `link`: the program of an entry package.
-/
import EffectMachine.Link.Closure

namespace EffectMachine

namespace Linker

/-- The code that initialises a package and keeps its object. -/
def initCode (p : LinkedPackage) : List UInt8 :=
  (Instruction.create p.cls 0).encode ++ (Instruction.call .call 2).encode ++
    (Instruction.globalStore (UInt32.ofNat p.global)).encode

/-- The code that initialises all packages and calls the main method of the
entry package. -/
def startCode (completed : List LinkedPackage) (entryGlobal : Nat) (main : MethodId) :
    List UInt8 :=
  completed.flatMap initCode ++ (Instruction.globalLoad (UInt32.ofNat entryGlobal)).encode ++
    (Instruction.call main 0).encode

/-- The class table with a class for integers. -/
def withIntClass (classes : Array ClassDecl) : Array ClassDecl :=
  if classes.any (·.kind = .int) then classes else classes.push ⟨"Int", .int, 0⟩

/-- The builtin table of the classes from `index` on, added to a table. -/
def builtinTableFrom (index : Nat) (t : BuiltinTable) :
    List ClassDecl → Except LinkError BuiltinTable
  | [] => .ok t
  | decl :: rest =>
    if decl.kind = .user then builtinTableFrom (index + 1) t rest
    else
      match t.get? decl.kind with
      | some first => .error (.duplicateBuiltin decl.kind first (.ofIndex index))
      | none => builtinTableFrom (index + 1) (t.set decl.kind (.ofIndex index)) rest

/-- The builtin table of a class table. -/
def builtinTable (classes : Array ClassDecl) : Except LinkError BuiltinTable :=
  builtinTableFrom 0 {} classes.toList

/-- The program of what has been linked. -/
def complete (entry : String) (l : Linker) : Except LinkError Program :=
  match l.methodId? mainName with
  | none => .error .missingMainMethod
  | some main =>
    match l.linked? entry with
    | none => .error (.missingPackage entry)
    | some entryPackage =>
      let start : Implementation := ⟨.programInit, .call, .standard, UInt32.ofNat l.code.size⟩
      let rows := (l.addImplementation start).methods
      let code := l.code ++ startCode l.completed.toList entryPackage.global main
      let classes := withIntClass l.classes
      match builtinTable classes with
      | .error e => .error e
      | .ok builtins =>
        match pack rows with
        | .error e => .error e
        | .ok table =>
          .ok {
            globalCount := UInt32.ofNat l.globalCount
            classes := classes
            methods := table.methods
            implementations := table.implementations
            externals := l.externals
            code := code
            builtins := builtins }

end Linker

/-- The report of a linked program. -/
def linkedReport (P : Program) : Entry :=
  .linkedProgram P.classes.size P.methods.size P.implementations.size P.code.size

/-- Links an entry package and everything that it imports into a program. -/
def link (source : Source) (entry : String) : EStateM LinkError Journal Program := fun journal =>
  match Linker.importPackage source source.bound entry (Linker.fresh journal) with
  | .error e l => .error e l.journal
  | .ok _ l =>
    match l.complete entry with
    | .error e => .error e l.journal
    | .ok P => .ok P (l.journal.record (linkedReport P))

end EffectMachine
