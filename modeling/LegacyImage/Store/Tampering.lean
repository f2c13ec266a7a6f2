import LegacyImage.Store

/-!
Changes to the files of a store that the store knows nothing of.
-/

namespace LegacyImage.Store

def writeFile (store : Store) (path : Path) (content : Bytes) : Except Error Unit × Store :=
  match store.tree.writeAt path content with
  | (result, tree) => (result, { store with tree })

def makeDirectory (store : Store) (path : Path) : Except Error Unit × Store :=
  match store.tree.makeWay path with
  | (result, tree) => (result, { store with tree })

end LegacyImage.Store
