import AppLedger.Transaction.Basic

/-! What is left of a transaction when it travels: no optional field with an empty value, and no
box that names the called application by its number. -/

namespace AppLedger

def Header.norm (h : Header) : Header :=
  { h with
    fee := h.fee.filter (!· == 0)
    genesisHash := h.genesisHash.filter (!·.isZero)
    genesisId := h.genesisId.filter (!·.isEmpty)
    note := h.note.filter (!·.isEmpty)
    rekeyTo := h.rekeyTo.filter (!·.isZero)
    lease := h.lease.filter (!·.isZero)
    group := h.group.filter (!·.isZero) }

/-- The sizes of the texts and byte strings can be written. -/
structure Header.Sized (h : Header) : Prop where
  genesisId : ∀ s ∈ h.genesisId, s.utf8ByteSize < UInt32.size
  note : ∀ b ∈ h.note, b.length < UInt32.size

namespace Payment

def norm (p : Payment) : Payment :=
  { p with header := p.header.norm, closeTo := p.closeTo.filter (!·.isZero) }

end Payment

namespace BoxRef

/-- The application that is called is named by zero. -/
def norm (app : UInt64) (box : BoxRef) : BoxRef :=
  if box.app = app then { box with app := 0 } else box

/-- The application of the box is the called one or among the references. -/
def Listed (app : UInt64) (references : List UInt64) (box : BoxRef) : Prop :=
  box.app = 0 ∨ box.app = app ∨ box.app ∈ references

end BoxRef

namespace AppCall

def norm (c : AppCall) : AppCall :=
  { c with
    header := c.header.norm
    approval := c.approval.filter (!·.isEmpty)
    clear := c.clear.filter (!·.isEmpty)
    globalSchema := c.globalSchema.filter (!·.isEmpty)
    localSchema := c.localSchema.filter (!·.isEmpty)
    extraPages := c.extraPages.filter (!· == 0)
    args := c.args.filter (!·.isEmpty)
    accounts := c.accounts.filter (!·.isEmpty)
    apps := c.apps.filter (!·.isEmpty)
    assets := c.assets.filter (!·.isEmpty)
    boxes := (c.boxes.filter (!·.isEmpty)).map (List.map (BoxRef.norm c.app)) }

/-- The sizes of the byte strings and lists can be written. -/
structure Sized (c : AppCall) : Prop where
  header : c.header.Sized
  approval : ∀ b ∈ c.approval, b.length < UInt32.size
  clear : ∀ b ∈ c.clear, b.length < UInt32.size
  args : ∀ args ∈ c.args, args.length < UInt32.size ∧ ∀ b ∈ args, b.length < UInt32.size
  accounts : ∀ accounts ∈ c.accounts, accounts.length < UInt32.size
  apps : ∀ apps ∈ c.apps, apps.length < UInt32.size
  assets : ∀ assets ∈ c.assets, assets.length < UInt32.size
  boxes : ∀ boxes ∈ c.boxes, boxes.length < UInt32.size ∧
    ∀ box ∈ boxes, box.name.length < UInt32.size

def BoxesListed (c : AppCall) : Prop :=
  ∀ box ∈ c.boxes.getD [], box.Listed c.app (c.apps.getD [])

end AppCall

namespace Transaction

def norm : Transaction → Transaction
  | .payment p => .payment p.norm
  | .appCall c => .appCall c.norm

def Sized : Transaction → Prop
  | .payment p => p.header.Sized
  | .appCall c => c.Sized

def BoxesListed : Transaction → Prop
  | .payment _ => True
  | .appCall c => c.BoxesListed

end Transaction

end AppLedger
