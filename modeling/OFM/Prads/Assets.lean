import Mathlib.Logic.Function.Basic
import OFM.Prads.Connection

/-!
# Assets in PRADS

The table of assets and `put_asset_per_sip`, with which the assets of a received chunk are merged into it.
Lists are in the order of their `next` pointers. Of a service and of an operating system there are the fields
that are copied to a new one, so that this is the same value; what is logged is left out.
-/

namespace OFM.Prads.Assets

/-- The bytes of a `bstring`. -/
abbrev BString := List (BitVec 8)

structure ServAsset where
  firstSeen : Int
  lastSeen : Int
  iAttempts : BitVec 16
  proto : BitVec 16
  port : BitVec 16
  ttl : BitVec 8
  service : BString
  application : BString
  role : BitVec 32
  deriving DecidableEq

structure OsAsset where
  firstSeen : Int
  lastSeen : Int
  detection : BitVec 8
  rawFp : Option BString
  port : BitVec 16
  ttl : BitVec 8
  uptime : BitVec 32
  deriving DecidableEq

structure Asset where
  lastSeen : Int
  af : AddressFamily
  vlan : BitVec 16
  ipAddr : In6Addr
  services : List ServAsset
  os : List OsAsset
  ref : BitVec 32
  deriving DecidableEq

/-- `prads.h` -/
class AssetMacros where
  assetHash4 : BitVec 32 → Nat
  cmpAddr4 : In6Addr → BitVec 32 → Bool
  maxServiceCheck : Nat

/-- `passet` -/
abbrev AssetTable := Nat → List Asset

/-- The first element that is looked for is changed; there is no list if there is none. -/
def updateFirst {α : Type*} (p : α → Bool) (f : α → α) : List α → Option (List α)
  | [] => none
  | a :: as => if p a then some (f a :: as) else (updateFirst p f as).map (a :: ·)

/-! ## Operating systems -/

/-- `biseq` does not take a `NULL` for equal to anything. -/
def OsAsset.found (inOa tmpOa : OsAsset) : Bool :=
  inOa.detection = tmpOa.detection ∧ inOa.rawFp.isSome ∧ inOa.rawFp = tmpOa.rawFp

def OsAsset.refreshed (tmpOa inOa : OsAsset) : OsAsset :=
  { tmpOa with
    rawFp := inOa.rawFp
    port := inOa.port
    lastSeen := inOa.lastSeen
    uptime := inOa.uptime }

/-- The variables of the loop: the list from `head_oa` on up to `tmp_oa` and from there, and what has been
put before it as `l_asset->os`. -/
structure OsLoop where
  before : List OsAsset
  after : List OsAsset
  pushed : Option OsAsset

/-- The inner loop. -/
def seekOs (inOa : OsAsset) : List OsAsset → List OsAsset → List OsAsset × List OsAsset
  | before, [] => (before, [])
  | before, tmpOa :: after =>
      if inOa.found tmpOa then (before, tmpOa.refreshed inOa :: after)
      else seekOs inOa (before ++ [tmpOa]) after

/-- `tmp_oa` stays where it is for the next one, and a new one takes the place of the last new one, as
`head_oa` stays too. -/
def OsLoop.next (s : OsLoop) (inOa : OsAsset) : OsLoop :=
  let (before, after) := seekOs inOa s.before s.after
  ⟨before, after, if after.isEmpty then some inOa else s.pushed⟩

def OsLoop.os (s : OsLoop) : List OsAsset := s.pushed.toList ++ (s.before ++ s.after)

/-- `update_osassets_per_asset` -/
def updateOsassetsPerAsset (os inOs : List OsAsset) : List OsAsset :=
  (inOs.foldl OsLoop.next ⟨[], os, none⟩).os

variable [AssetMacros]

/-! ## Services -/

/-- `data[0]`; a `bstring` ends with a `'\0'`. -/
def BString.first (s : BString) : BitVec 8 := s.headD 0

/-- What becomes of a service that has been found. -/
def ServAsset.merged (inSa tmpSa : ServAsset) : ServAsset :=
  let replaced := { tmpSa with
    iAttempts := 0
    service := inSa.service
    application := inSa.application
    lastSeen := inSa.lastSeen }
  if inSa.lastSeen < tmpSa.lastSeen then tmpSa
  else if BString.first inSa.application ≠ 0x40 ∧ BString.first tmpSa.application = 0x40 then replaced
  else if inSa.application ≠ tmpSa.application then
    if tmpSa.iAttempts.toNat > AssetMacros.maxServiceCheck then replaced
    else { tmpSa with iAttempts := tmpSa.iAttempts + 1, lastSeen := inSa.lastSeen }
  else { tmpSa with iAttempts := 0, lastSeen := inSa.lastSeen }

omit [AssetMacros] in
def ServAsset.found (inSa tmpSa : ServAsset) : Bool :=
  inSa.port = tmpSa.port ∧ inSa.proto = tmpSa.proto

/-- One round of the loop; it starts at the head again. -/
def updateSasset (services : List ServAsset) (inSa : ServAsset) : List ServAsset :=
  (updateFirst inSa.found inSa.merged services).getD (inSa :: services)

/-- `update_sassets_per_asset` -/
def updateSassetsPerAsset (services inServices : List ServAsset) : List ServAsset :=
  inServices.foldl updateSasset services

/-! ## The table -/

/-- An asset of this address. -/
def Asset.isOf (sip : BitVec 32) (masset : Asset) : Bool :=
  masset.af = .inet ∧ AssetMacros.cmpAddr4 masset.ipAddr sip

/-- `get_asset_per_sip` -/
def getAssetPerSip (passet : AssetTable) (sip : BitVec 32) : Option Asset :=
  (passet (AssetMacros.assetHash4 sip)).find? (Asset.isOf sip)

def Asset.update (inAsset lAsset : Asset) : Asset :=
  { lAsset with
    vlan := inAsset.vlan
    lastSeen := inAsset.lastSeen
    services := updateSassetsPerAsset lAsset.services inAsset.services
    os := updateOsassetsPerAsset lAsset.os inAsset.os }

/-- `put_asset_per_sip` -/
def putAssetPerSip (sip : BitVec 32) (inAsset : Option Asset) (passet : AssetTable) : AssetTable :=
  match inAsset with
  | none => passet
  | some inAsset =>
      let hash := AssetMacros.assetHash4 sip
      match getAssetPerSip passet sip with
      | none => Function.update passet hash ({ inAsset with ref := 0 } :: passet hash)
      | some lAsset =>
          if lAsset.lastSeen > inAsset.lastSeen then passet
          else Function.update passet hash
            ((updateFirst (Asset.isOf sip) inAsset.update (passet hash)).getD (passet hash))

end OFM.Prads.Assets
