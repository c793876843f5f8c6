import EntitySchema.Disk.Basic

/-! What differs between two states of a disk below a directory, so that the
effect of a command can be shown or carried out. -/
namespace EntitySchema.Disk

/-- What became of one place. -/
inductive Change where
  | written (content : ByteArray)
  | made
  | gone

/-- Is this a place where nothing stands any more? -/
def Change.isGone : Change → Bool
  | .gone => true
  | _ => false

/-- The text of a place below `top`; that of a directory ends in a slash. -/
def shown (top : Place) (place : Place) (entry : Entry) : String :=
  "/".intercalate (place.drop top.length) ++
    match entry with
    | .directory => "/"
    | .file _ => ""

/-- The entries below a directory, by their text. -/
def listing (disk : Disk) (top : Place) : List (String × Entry) :=
  (disk.entries.filter fun item => below top item.1).map fun item =>
    (shown top item.1 item.2, item.2)

/-- The changes below `top`, in the order of their text. -/
def changes (before after : Disk) (top : Place) : List (String × Change) :=
  let old := before.listing top
  let new := after.listing top
  let appeared := new.filterMap fun (name, entry) =>
    if old.lookup name = some entry then none
    else
      match entry with
      | .directory => some (name, Change.made)
      | .file content => some (name, Change.written content)
  let vanished := old.filterMap fun (name, _) =>
    if (new.lookup name).isSome then none else some (name, Change.gone)
  (appeared ++ vanished).mergeSort fun a b => a.1 ≤ b.1

end EntitySchema.Disk
