import HappyDpos.Types.Bytes
import HappyDpos.Types.Trie
import HappyDpos.Types.Rlp
import HappyDpos.Types.Error
import HappyDpos.Context.Basic
import HappyDpos.Context.Lemmas.Ops
import HappyDpos.Context.Lemmas.Invariant
import HappyDpos.Context.Voting
import HappyDpos.Context.Lemmas.Refinement
import HappyDpos.Context.Lemmas.Commit
import HappyDpos.Context.Theorems
import HappyDpos.Engine.Header
import HappyDpos.Engine.Dpos
import HappyDpos.Engine.Lemmas.Slot
import HappyDpos.Engine.Lemmas.MintCnt
import HappyDpos.Engine.Lemmas.Verify
import HappyDpos.Engine.Lemmas.Seal
import HappyDpos.Engine.Theorems
import HappyDpos.Confirm.Basic
import HappyDpos.Confirm.Rule
import HappyDpos.Confirm.Lemmas.Walk
import HappyDpos.Confirm.Lemmas.Quorum
import HappyDpos.Confirm.Theorems
import HappyDpos.Validator.Basic
import HappyDpos.Validator.Theorems
