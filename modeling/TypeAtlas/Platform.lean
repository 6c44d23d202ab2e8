import TypeAtlas.Table

/-! Well-known types of the platform, whose sources seldom lie next to a project. Only the hierarchy is
given, no members; all names are full ones, so no declaration needs a scope. -/

namespace TypeAtlas.Platform

def ref (name : String) : String := "Q" ++ name ++ ";"

def refTo (name : String) (arguments : List String) : String :=
  "Q" ++ name ++ "<" ++ String.join (arguments.map ref) ++ ">;"

def serializable : String := ref "java.io.Serializable"

def cloneable : String := ref "java.lang.Cloneable"

def comparable (name : String) : String := refTo "java.lang.Comparable" [name]

def interfaceType (name : String) (typeVariables interfaces : List String) : Declaration :=
  { name := name, kind := .known .interfaceType, modifiers := ["public"], interfaces := interfaces,
    typeParameters := typeVariables.map (⟨·, []⟩) }

def openClass (name superclass : String) (typeVariables interfaces : List String) : Declaration :=
  { interfaceType name typeVariables interfaces with
    kind := .known .classType, superclass := some (ref superclass) }

def plainClass (name superclass : String) : Declaration := openClass name superclass [] []

def finalClass (name superclass : String) (typeVariables interfaces : List String) : Declaration :=
  { openClass name superclass typeVariables interfaces with modifiers := ["public", "final"] }

def abstractClass (name superclass : String) (typeVariables interfaces : List String) : Declaration :=
  { openClass name superclass typeVariables interfaces with modifiers := ["public", "abstract"] }

def types : List Declaration := [
  { interfaceType "java.lang.Object" [] [] with kind := .known .classType },
  finalClass "java.lang.String" "java.lang.Object"
    [] [serializable, comparable "java.lang.String", ref "java.lang.CharSequence"],
  interfaceType "java.lang.CharSequence" [] [],
  interfaceType "java.lang.Comparable" ["T"] [],
  interfaceType "java.lang.Iterable" ["T"] [],
  interfaceType "java.lang.Runnable" [] [],
  interfaceType "java.lang.AutoCloseable" [] [],
  interfaceType "java.lang.Cloneable" [] [],
  abstractClass "java.lang.Number" "java.lang.Object" [] [serializable],
  finalClass "java.lang.Boolean" "java.lang.Object"
    [] [serializable, comparable "java.lang.Boolean"],
  finalClass "java.lang.Character" "java.lang.Object"
    [] [serializable, comparable "java.lang.Character"],
  finalClass "java.lang.Byte" "java.lang.Number" [] [comparable "java.lang.Byte"],
  finalClass "java.lang.Short" "java.lang.Number" [] [comparable "java.lang.Short"],
  finalClass "java.lang.Integer" "java.lang.Number" [] [comparable "java.lang.Integer"],
  finalClass "java.lang.Long" "java.lang.Number" [] [comparable "java.lang.Long"],
  finalClass "java.lang.Float" "java.lang.Number" [] [comparable "java.lang.Float"],
  finalClass "java.lang.Double" "java.lang.Number" [] [comparable "java.lang.Double"],
  { abstractClass "java.lang.Enum" "java.lang.Object" [] [comparable "E", serializable] with
    typeParameters := [⟨"E", [refTo "java.lang.Enum" ["E"]]⟩] },
  abstractClass "java.lang.Record" "java.lang.Object" [] [],
  finalClass "java.lang.Class" "java.lang.Object" ["T"] [serializable],
  openClass "java.lang.Throwable" "java.lang.Object" [] [serializable],
  plainClass "java.lang.Exception" "java.lang.Throwable",
  plainClass "java.lang.Error" "java.lang.Throwable",
  plainClass "java.lang.RuntimeException" "java.lang.Exception",
  plainClass "java.lang.IllegalArgumentException" "java.lang.RuntimeException",
  plainClass "java.lang.IllegalStateException" "java.lang.RuntimeException",
  plainClass "java.lang.NullPointerException" "java.lang.RuntimeException",
  plainClass "java.lang.UnsupportedOperationException" "java.lang.RuntimeException",
  plainClass "java.lang.ClassCastException" "java.lang.RuntimeException",
  plainClass "java.lang.ArithmeticException" "java.lang.RuntimeException",
  plainClass "java.lang.IndexOutOfBoundsException" "java.lang.RuntimeException",
  plainClass "java.lang.InterruptedException" "java.lang.Exception",
  plainClass "java.lang.CloneNotSupportedException" "java.lang.Exception",
  plainClass "java.lang.ReflectiveOperationException" "java.lang.Exception",
  plainClass "java.lang.ClassNotFoundException" "java.lang.ReflectiveOperationException",
  plainClass "java.lang.AssertionError" "java.lang.Error",
  plainClass "java.lang.OutOfMemoryError" "java.lang.Error",
  interfaceType "java.io.Serializable" [] [],
  interfaceType "java.io.Closeable" [] [ref "java.lang.AutoCloseable"],
  plainClass "java.io.IOException" "java.lang.Exception",
  plainClass "java.io.FileNotFoundException" "java.io.IOException",
  plainClass "java.io.UncheckedIOException" "java.lang.RuntimeException",
  interfaceType "java.util.Iterator" ["E"] [],
  interfaceType "java.util.Collection" ["E"] [refTo "java.lang.Iterable" ["E"]],
  interfaceType "java.util.List" ["E"] [refTo "java.util.Collection" ["E"]],
  interfaceType "java.util.Set" ["E"] [refTo "java.util.Collection" ["E"]],
  interfaceType "java.util.Queue" ["E"] [refTo "java.util.Collection" ["E"]],
  interfaceType "java.util.Deque" ["E"] [refTo "java.util.Queue" ["E"]],
  interfaceType "java.util.Map" ["K", "V"] [],
  openClass "java.util.ArrayList" "java.lang.Object"
    ["E"] [refTo "java.util.List" ["E"], cloneable, serializable],
  openClass "java.util.LinkedList" "java.lang.Object"
    ["E"] [refTo "java.util.List" ["E"], refTo "java.util.Deque" ["E"], cloneable, serializable],
  openClass "java.util.HashSet" "java.lang.Object"
    ["E"] [refTo "java.util.Set" ["E"], cloneable, serializable],
  openClass "java.util.HashMap" "java.lang.Object"
    ["K", "V"] [refTo "java.util.Map" ["K", "V"], cloneable, serializable],
  finalClass "java.util.Optional" "java.lang.Object" ["T"] [],
  plainClass "java.util.NoSuchElementException" "java.lang.RuntimeException",
  plainClass "java.util.ConcurrentModificationException" "java.lang.RuntimeException"]

def index : Index := Index.ofList types

def table : Table := .ofLast types

end TypeAtlas.Platform
