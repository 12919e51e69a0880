import MiddleEnd.Message
import MiddleEnd.Tree.Basic

/-!
# Sample programs

Small programs that show what the analyses find and what the passes do.
-/

namespace MiddleEnd

/-- A program with a name and a description. -/
structure Sample where
  name : String
  description : String
  program : Program

/-- A name that no sample has. -/
structure UnknownSample where
  name : String
deriving DecidableEq, Repr

/-- What is said about a name that no sample has. -/
def UnknownSample.message (unknown : UnknownSample) : String :=
  terminated ("unknown sample: " ++ unknown.name)

namespace Sample

/-! ## Abbreviations -/

/-- An integer literal. -/
def int (value : Int64) : Expr :=
  .literal (.int value)

/-- A call by name. -/
def call (name : String) (arguments : List Expr) : Expr :=
  .call (.ident name) arguments

/-- A statement that returns a value. -/
def returning (value : Expr) : Stmt :=
  .ret (some value)

/-! ## Programs -/

/-- Constant expressions and small functions. -/
def arithmetic : Sample where
  name := "arithmetic"
  description := "constant expressions and small helpers"
  program :=
    { statements :=
        [.function "square" ["x"]
          (.block [returning (.binary .multiply (.ident "x") (.ident "x"))]),
        .function "area" ["w", "h"]
          (.block
            [.bind "s" (.binary .multiply (int 2) (int 8)),
            returning
              (.binary .add
                (.binary .multiply (.ident "w") (.ident "h"))
                (.ident "s"))]),
        .function "main" []
          (.block
            [.bind "a" (call "square" [.binary .add (int 3) (int 4)]),
            returning
              (call "area" [.ident "a", .unary .negate (int 5)])])] }

/-- Functions that call themselves and each other. -/
def recursion : Sample where
  name := "recursion"
  description := "direct and mutual recursion"
  program :=
    let before (steps : Int64) : Expr :=
      .binary .subtract (.ident "n") (int steps)
    { statements :=
        [.function "countdown" ["n"]
          (.branch (.binary .greater (.ident "n") (int 0))
            (.block [.expr (call "countdown" [before 1])])
            none),
        .function "is_even" ["n"]
          (.branch (.binary .equal (.ident "n") (int 0))
            (.literal (.bool true))
            (some (call "is_odd" [before 1]))),
        .function "is_odd" ["n"]
          (.branch (.binary .equal (.ident "n") (int 0))
            (.literal (.bool false))
            (some (call "is_even" [before 1]))),
        .function "fib" ["n"]
          (.block
            [.expr
              (.branch (.binary .less (.ident "n") (int 2))
                (.ident "n")
                (some
                  (.binary .add
                    (call "fib" [before 1])
                    (call "fib" [before 2]))))]),
        .function "main" []
          (.block
            [.expr (call "countdown" [int 10]),
            .expr (call "is_even" [int 4]),
            .expr (call "fib" [int 10])])] }

/-- Loops, and products with powers of two. -/
def loops : Sample where
  name := "loops"
  description := "while loops and multiplications by powers of two"
  program :=
    { statements :=
        [.function "sum" ["n"]
          (.block
            [.bind "i" (int 0),
            .bind "acc" (int 0),
            .expr
              (.loop (.binary .less (.ident "i") (.ident "n"))
                (.block
                  [.expr
                    (.assign "acc"
                      (.binary .add (.ident "acc")
                        (.binary .multiply (.ident "i") (int 4)))),
                  .expr
                    (.assign "i" (.binary .add (.ident "i") (int 1)))])),
            .expr
              (.loop (.binary .greater (.ident "acc") (int 100))
                (.assign "acc" (.binary .divide (.ident "acc") (int 2)))),
            returning (.ident "acc")]),
        .function "scale" ["v"]
          (.block
            [returning
              (.binary .add
                (.binary .multiply (.ident "v") (int 8))
                (.binary .multiply (.ident "v") (int 3)))])] }

/-- Functions that the entry point does not need. -/
def deadCode : Sample where
  name := "dead-code"
  description := "functions unreachable from main (try --entry main)"
  program :=
    { module := "app"
      statements :=
        [.use "std::io",
        .function "helper" [] (.block [returning (int 1)]),
        .function "unused" []
          (.block [returning (.binary .add (call "helper" []) (int 2))]),
        .function "orphan" [] (.block [returning (int 3)]),
        .function "main" [] (.block [returning (call "helper" [])])] }

/-- A constant expression without a value. -/
def divisionByZero : Sample where
  name := "division-by-zero"
  description := "a constant division that cannot be folded"
  program :=
    { statements :=
        [.function "broken" []
          (.block
            [returning
              (.binary .divide (int 10)
                (.binary .subtract (int 4) (int 4)))])] }

/-- The samples in the order in which they are listed. -/
def catalog : List Sample :=
  [arithmetic, recursion, loops, deadCode, divisionByZero]

/-- The program of the sample with the given name. -/
def find (name : String) : Except UnknownSample Program :=
  match catalog.find? (·.name == name) with
  | some sample => .ok sample.program
  | none => .error ⟨name⟩

end Sample

end MiddleEnd
