import Mathlib

/-!
# Event topics

The first topic of a log is the Keccak-256 hash of its event's signature
(`core/src/chain/events.rs`). Where the source computes the hash at start-up, the
constant below is its value.
-/

namespace MevScout

/-- `alloy::primitives::Address`. -/
abbrev Address := BitVec 160

/-- Addresses compare as numbers, which is the order of their bytes. -/
instance instTransOrdAddress : Std.TransOrd Address := BitVec.instTransOrd

instance instLawfulEqOrdAddress : Std.LawfulEqOrd Address := BitVec.instLawfulEqOrd

instance instLawfulBEqAddress : LawfulBEq Address := inferInstance

/-- `alloy::primitives::B256`. -/
abbrev B256 := BitVec 256

namespace Chain

def transferTopic : B256 := 0xddf252ad1be2c89b69c2b068fc378daa952ba7f163c4a11628f55a4df523b3ef
def v2SwapTopic : B256 := 0xd78ad95fa46c994b6551d0da85fc275fe613ce37657fb8d5e3d130840159d822
def v2SyncTopic : B256 := 0x1c411e9a96e071241c2f21f7726b17ae89e3cab4c78be50e062b03a9fffbbad1
def v3SwapTopic : B256 := 0xc42079f94a6350d7e6235f29174924f928cc2ac818eb64fed8004e115fbcca67
def v3MintTopic : B256 := 0x7a53080ba414158be7ec69b987b5fb7d07dee101fe85488f0853ae16239d0bde
def v3BurnTopic : B256 := 0x0c396cd989a39f4459b5fa1aed6a9a8dcdbc45908acfd67e028cd568da98982c

/-- `Swap(bytes32,address,int128,int128,uint160,uint128,int24,uint24)`. -/
def v4SwapTopic : B256 := 0x40e9cecb9f5f1f1c5b9c97dec2917b7ee92e57ba5563708daca94dd84ad7112f

/-- `Swap(bytes32,address,int128,int128,uint160,uint128,int24,uint24,uint16)`. -/
def infClSwapTopic : B256 := 0x04206ad2b7c0f463bff3dd4f33c5735b0f2957a351e4f79763a4fa9e775dd237

/-- `TokenExchange(address,int128,uint256,int128,uint256)`. -/
def curveTokenExchangeTopic : B256 :=
  0x8b3e96f2b889fa771c53c981b40daf005f63f637f1869f707052d15a3dd97140

/-- `TokenExchange(address,int128,uint256,int128,uint256,uint256)`. -/
def curveV2TokenExchangeTopic : B256 :=
  0x95d7b7eb49650fc975a7948ff147be2a3b8e3210fbacbba6ff2a7bcbebd2986e

/-- `TokenExchangeUnderlying(address,int128,uint256,int128,uint256)`. -/
def curveTokenExchangeUnderlyingTopic : B256 :=
  0xd013ca23e77a65003c2c659c5442c00c805371b7fc1ebd4c206c41d1536bd90b

/-- `TokenExchangeUnderlying(address,int128,uint256,int128,uint256,uint256)`. -/
def curveV2TokenExchangeUnderlyingTopic : B256 :=
  0xe3607c2ce07864d07fe66ae81737853c59f6961b40c954197162bd764ffb9e77

/-- `Swap(bytes32,address,address,uint256,uint256)`. -/
def balancerSwapTopic : B256 :=
  0x2170c741c41531aec20e7c107c24eecfdd15e69c9bb0a8dd37b1840b9e0b207b

/-- `Swap(address,address,uint256,uint256,uint256,uint256)`: the data layout of the
    Uniswap V2 event, with another order of the types in the signature. -/
def solidlySwapTopic : B256 :=
  0xb3e2773606abfd36b5bd91394b3a54d1398336c65005baf7bf7a05efeffaf75b

/-- `Swap(address,address,uint256,bool,uint256,uint256,uint256,uint256)`. -/
def traderJoeLbSwapTopic : B256 :=
  0xc528cda9e500228b16ce84fadae290d9a49aecb17483110004c5af0a07f6fd73

/-- `Swap(address,address,uint24,bytes32,bytes32,uint24,bytes32,bytes32)`. -/
def traderJoeLbSwapLegacyTopic : B256 :=
  0xad7d6f97abf51ce18e17a38f4d70e975be9c0708474987bb3e26ad21bd93ca70

/-- `Swap(bool,uint256,uint256,address)`. -/
def fluidSwapTopic : B256 := 0xdc004dbca4ef9c966218431ee5d9133d337ad018dd5b5c5493722803f75c64f7

/-- `Swap(address,address,bool,int128,int128,int16,uint104)`. -/
def metricSwapTopic : B256 := 0xcd8b75a7fb6cb82ab3acded68ac53af5c43d19b51a91b9d5640bb73622dbdf57

/-- `Swap(address,address,int256,int256,uint256,uint256)`. -/
def pendleMarketSwapTopic : B256 :=
  0x829000a5bc6a12d46e30cdcecd7c56b1efd88f6d7d059da6734a04f3764557c4

/-- `SwapPtAndSy(address,address,address,int256,int256)`, emitted by the router. -/
def pendleSwapPtAndSyTopic : B256 :=
  0x3f5e2944826baeaed8eb77f0f74e6088a154a0fc1317f062fd984585607b4739

/-- `SwapYtAndSy(address,address,address,int256,int256)`, emitted by the router. -/
def pendleSwapYtAndSyTopic : B256 :=
  0x05499aba408f669fb848399c146fad5bd604d50b15566bdc19e81c40922fab8d

/-- `SwapPtAndToken(address,address,address,address,int256,int256,uint256)`. -/
def pendleSwapPtAndTokenTopic : B256 :=
  0xd3c1d9b397236779b29ee5b5b150c1110fc8221b6b6ec0be49c9f4860ceb2036

/-- `SwapYtAndToken(address,address,address,address,int256,int256,uint256)`. -/
def pendleSwapYtAndTokenTopic : B256 :=
  0xa3a2846538c60e47775faa60c6ae79b67dee6d97bb70e386ebbaf4c3a38e8b81

end Chain

end MevScout
