import VaultTransfers.Evm.Address

/-!
The tokens that the vault deals in, and the contracts whose events are watched.
-/

namespace VaultTransfers

structure Asset where
  symbol : String
  name : String
  address : Address
  decimals : Nat
deriving DecidableEq, Repr

namespace Asset

/-- The contract that emits deposits. -/
def teller : Address := .ofNat 0x4e8f5128f473c6948127f9cbca474a6700f99bab

/-- The contract that emits withdrawal requests and their fulfilments. -/
def atomicQueue : Address := .ofNat 0x3b4acd8879fb60586ccd74bc2f831a4c5e7dbbf8

def lbtc : Asset :=
  ⟨"LBTC", "Lombard Staked BTC", .ofNat 0x8236a87084f8b84306f72007f36f2618a5634494, 8⟩

def wbtc : Asset :=
  ⟨"WBTC", "Wrapped BTC", .ofNat 0x2260fac5e5542a773aa44fbcfedf7c193bc2c599, 8⟩

def cbtc : Asset :=
  ⟨"CBTC", "Coinbase Wrapped BTC", .ofNat 0xcbb7c0000ab88b473b1f5afd9ef808440eed33bf, 8⟩

/-- The share token of the vault. A request that offers another token is no withdrawal from it. -/
def lbtcv : Asset :=
  ⟨"LBTCv", "Lombard BTC Vault", .ofNat 0x5401b8620e5fb570064ca9114fd1e135fd77d57c, 8⟩

def supported : List Asset :=
  [lbtc, wbtc, cbtc, lbtcv]

/-- The decimals assumed of a token that is not registered. -/
def defaultDecimals : Nat := 8

def find? (a : Address) : Option Asset :=
  supported.find? (·.address = a)

/-- A registered token's symbol, or else the checksummed address. -/
def displayName (a : Address) : String :=
  match find? a with
  | some asset => asset.symbol
  | none => a.checksummed

def decimalsOf (a : Address) : Nat :=
  match find? a with
  | some asset => asset.decimals
  | none => defaultDecimals

end Asset

end VaultTransfers
