import Dana.Check.Stmt

/-!
# The standard library

The functions every program can call. Checking needs their headers only,
which stand in the global scope before the program is looked at.
-/

namespace Dana

structure Builtin where
  name : String
  params : List (String × Ty)
  result : Option Ty
deriving DecidableEq, Repr

namespace Builtin

/-- A group for each parameter. -/
def header (b : Builtin) : Header :=
  .make b.name b.result (b.params.map fun (x, ty) => .ofNames [x] ty false) 0

/-- All functions of the library, in the order they are registered in. -/
def all : List Builtin :=
  [⟨"writeInteger", [("n", .int)], none⟩,
   ⟨"writeByte", [("b", .byte)], none⟩,
   ⟨"writeChar", [("b", .byte)], none⟩,
   ⟨"writeString", [("s", .string)], none⟩,
   ⟨"readInteger", [], some .int⟩,
   ⟨"readByte", [], some .byte⟩,
   ⟨"readChar", [], some .byte⟩,
   ⟨"readString", [("n", .int), ("s", .string)], none⟩,
   ⟨"extend", [("b", .byte)], some .int⟩,
   ⟨"shrink", [("i", .int)], some .byte⟩,
   ⟨"strlen", [("s", .string)], some .int⟩,
   ⟨"strcmp", [("s1", .string), ("s2", .string)], some .int⟩,
   ⟨"strcpy", [("trg", .string), ("src", .string)], none⟩,
   ⟨"strcat", [("trg", .string), ("src", .string)], none⟩]

def find? (name : String) : Option Builtin :=
  all.find? fun b => b.name = name

/-- Registers the whole library, up to the first name that is taken. -/
def registerAll : Check Unit :=
  all.forM fun b => Check.register b.header

end Builtin

/-- The table a program is checked with: the library and nothing else. -/
def Table.standard : Table :=
  (Builtin.registerAll.run .empty).table

/-- No name of the library is there twice, so the standard table has all of it. -/
theorem Builtin.registerAll_empty : (registerAll.run .empty).result = .ok () := rfl

/-- Checks a program with the standard library. -/
def check (p : Program) : Except Fault Unit :=
  (p.check.run .standard).result

end Dana
