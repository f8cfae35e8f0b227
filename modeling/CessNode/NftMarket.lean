/-
# The NFT market

The ink contract keeps the owners of the tokens in the storage of its library, and the numbers, the
file ids and the prices in its own.  It also exposes messages of the library: anyone may create
a token under any free id, and tokens are transferred past the market.
-/
import CessNode.StorageMap

open StorageMap

namespace NftMarket

/-- `psp34::Id`. -/
inductive Id
  | u8 (n : ℕ) | u16 (n : ℕ) | u32 (n : ℕ) | u64 (n : ℕ) | u128 (n : ℕ) | bytes (l : List UInt8)
  deriving DecidableEq

/-- `PSP34Error`, with `NftError` for its custom texts. -/
inductive Error
  | badMintValue (required supplied : ℕ) | collectionIsFull | notTokenOwner | notForSale | ownToken
  | priceNotMatch (required supplied : ℕ) | transferNativeTokenFailed | overflow
  | tokenExists | tokenNotExists | callerIsNotOwner

/-- `NftData`, and the owners of the contract and of the tokens. -/
structure Market (A : Type) where
  owner : A
  tokenOwner : StorageMap Id A
  lastTokenId : ℕ
  maxSupply : ℕ
  pricePerMint : ℕ
  fidList : StorageMap Id String
  saleList : StorageMap Id ℕ

/-- The constructor. -/
def Market.new {A : Type} (caller : A) (maxSupply pricePerMint : ℕ) : Market A :=
  ⟨caller, ∅, 0, maxSupply, pricePerMint, ∅, ∅⟩

variable {A : Type} [DecidableEq A] {m : Market A}

/-- `_mint_to` of the library. -/
@[grind] def Market.create (m : Market A) (acc : A) (id : Id) : Except Error (Market A) :=
  match m.tokenOwner.lookup id with
  | some _ => .error .tokenExists
  | none => .ok { m with tokenOwner := m.tokenOwner.insert id acc }

/-- `mint_to`, with `check_value`.  The number fits a `u64`, being at most `max_supply`. -/
@[grind] def Market.mintTo (m : Market A) (acc : A) (value : ℕ) (fid : String) :
    Except Error (Market A) :=
  if value ≠ m.pricePerMint then .error (.badMintValue m.pricePerMint value)
  else if m.lastTokenId ≥ m.maxSupply then .error .collectionIsFull
  else match m.create acc (.u64 (m.lastTokenId + 1)) with
    | .error e => .error e
    | .ok m => .ok { m with
      fidList := m.fidList.insert (.u64 (m.lastTokenId + 1)) fid
      lastTokenId := m.lastTokenId + 1 }

/-- `check_owner`, and then `next`. -/
@[grind] def Market.checkOwner (m : Market A) (caller : A) (id : Id)
    (next : Except Error (Market A)) : Except Error (Market A) :=
  match m.tokenOwner.lookup id with
  | none => .error .tokenNotExists
  | some owner => if owner ≠ caller then .error .notTokenOwner else next

@[grind] def Market.list (m : Market A) (caller : A) (id price : ℕ) : Except Error (Market A) :=
  m.checkOwner caller (.u64 id) <|
    if price * 10 ^ 12 < 2 ^ 128 then
      .ok { m with saleList := m.saleList.insert (.u64 id) (price * 10 ^ 12) }
    else .error .overflow

@[grind] def Market.delist (m : Market A) (caller : A) (id : ℕ) : Except Error (Market A) :=
  m.checkOwner caller (.u64 id) <| match m.saleList.lookup (.u64 id) with
    | none => .error .notForSale
    | some _ => .ok { m with saleList := m.saleList.erase (.u64 id) }

/-- `purchase`; `paid` is the outcome of the transfer of the price to the owner. -/
@[grind] def Market.purchase (m : Market A) (caller : A) (id value : ℕ) (paid : Bool) :
    Except Error (Market A) :=
  match m.tokenOwner.lookup (.u64 id) with
  | none => .error .tokenNotExists
  | some owner =>
    if owner = caller then .error .ownToken
    else match m.saleList.lookup (.u64 id) with
      | none => .error .notForSale
      | some price =>
        if price ≠ value then .error (.priceNotMatch price value)
        else if !paid then .error .transferNativeTokenFailed
        else .ok { m with
          saleList := m.saleList.erase (.u64 id)
          tokenOwner := m.tokenOwner.insert (.u64 id) caller }

/-- The messages of the market (`mint` is `mint_to` the caller), and of the library `create`
(`PSP34Mintable::mint`) and `transfer`, which is allowed to anyone here. -/
inductive Message (A : Type)
  | mintTo (acc : A) (value : ℕ) (fid : String)
  | setMaxSupply (caller : A) (value : ℕ)
  | list (caller : A) (id price : ℕ)
  | delist (caller : A) (id : ℕ)
  | purchase (caller : A) (id value : ℕ) (paid : Bool)
  | create (acc : A) (id : Id)
  | transfer (acc : A) (id : Id)

@[grind] def Market.code (m : Market A) : Message A → Except Error (Market A)
  | .mintTo acc value fid => m.mintTo acc value fid
  | .setMaxSupply caller value =>
    if m.owner = caller then .ok { m with maxSupply := value } else .error .callerIsNotOwner
  | .list caller id price => m.list caller id price
  | .delist caller id => m.delist caller id
  | .purchase caller id value paid => m.purchase caller id value paid
  | .create acc id => m.create acc id
  | .transfer acc id =>
    if id ∈ m.tokenOwner then .ok { m with tokenOwner := m.tokenOwner.insert id acc }
    else .error .tokenNotExists

/-- A message that fails changes nothing. -/
@[grind] def Market.step (m : Market A) (c : Message A) : Market A :=
  match m.code c with
  | .ok m' => m'
  | .error _ => m

/-- The file ids are stored for the numbers given out, these tokens exist, and so do the tokens
for sale. -/
structure Market.Numbered (m : Market A) : Prop where
  fids : ∀ id, id ∈ m.fidList ↔ ∃ k, 0 < k ∧ k ≤ m.lastTokenId ∧ id = .u64 k
  minted : ∀ id ∈ m.fidList, id ∈ m.tokenOwner
  listed : ∀ id ∈ m.saleList, id ∈ m.tokenOwner

theorem Market.Numbered.step (h : m.Numbered) (c : Message A) : (m.step c).Numbered := by
  obtain ⟨hfids, hminted, hlisted⟩ := h
  -- only a mint stores a file id, and no message removes a token
  cases c <;> constructor <;> simp only [Market.step, Market.code, Market.purchase] <;>
    grind [AList.mem_insert, AList.mem_erase, mem_iff_exists_lookup]

/-- The token with the number after `last` exists without having been minted. -/
def Market.Blocked (last : ℕ) (m : Market A) : Prop :=
  m.lastTokenId = last ∧ .u64 (last + 1) ∈ m.tokenOwner

theorem Market.Blocked.step {last : ℕ} (h : m.Blocked last) (c : Message A) :
    (m.step c).Blocked last := by
  obtain ⟨hlast, htoken⟩ := h
  -- a mint needs the next number to be free
  cases c <;> constructor <;> grind [AList.mem_insert, mem_iff_exists_lookup]

/-- The messages by which an owner puts a token up for sale or gives it away. -/
def Message.Releases (owner : A) (id : ℕ) : Message A → Prop
  | .list caller id' _ => caller = owner ∧ id' = id
  | .transfer _ id' => id' = .u64 id
  | _ => False

end NftMarket
