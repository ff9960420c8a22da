import Reckon.Disk

/-! Stores of bytes by key: what a store offers, and how it fails. -/

namespace Reckon

inductive Refusal where
  | readOnly
  | unreadable
  | disk (fault : Disk.Fault)
  deriving DecidableEq, Repr

def Refusal.message : Refusal → String
  | .readOnly => "read-only"
  | .unreadable => "unreadable"
  | .disk fault => fault.message

structure StoreError where
  key : String
  refusal : Refusal
  deriving DecidableEq, Repr

def StoreError.message (error : StoreError) : String :=
  "Failed to access stored key '" ++ error.key ++ "': " ++ error.refusal.message

/-- A store keeps bytes under keys. Reading does not change it; a write may be refused. -/
class Store (σ : Type) where
  /-- What is kept under a key, if anything. -/
  get : σ → String → Except StoreError (Option Bytes)
  /-- Keeps bytes under a key in place of what was there. -/
  put : σ → String → Bytes → Except StoreError Unit × σ

end Reckon
