import VirtualFs.Text.Quoted
import VirtualFs.Tree.View

namespace VirtualFs

/-- A type name and some of its fields, and two dots where others are left out. -/
def describe (name : String) (fields : List (String × String)) (more : Bool) : String :=
  let parts := fields.map (fun (key, value) => key ++ ": " ++ value) ++ (if more then [".."] else [])
  name ++ " \x7b " ++ String.intercalate ", " parts ++ " \x7d"

/-- The rules are a predicate and show nothing. -/
def PathRules.description : String :=
  describe "PathRules" [] true

namespace Tree

def View.description (view : View) (store : Store) : String :=
  describe "MemFs"
    [("root", Text.quote (view.base store)), ("is_root_view", if view.isRoot then "true" else "false")]
    true

def Handle.description (handle : Handle) : String :=
  describe "MemFile"
    [("path", Text.quote handle.path),
      ("flags", "OpenFlags(" ++ toString handle.flags.bits.toNat ++ ")")]
    true

def Pager.description (pager : Pager) (store : Store) : String :=
  describe "DirIterator"
    [("dir", Text.quote (store.pathOf pager.dir)), ("remaining", toString pager.names.length)]
    false

end Tree

end VirtualFs
