import TeachAsm.Budget

/-!
# Spelling

Every statement above the first `END` starts with a mnemonic.
-/

namespace TeachAsm

def checkSpelling : Ledger → List Line → Ledger
  | ledger, [] => ledger
  | ledger, l :: rest =>
    if ledger.exhausted then ledger
    else if l.isBlank then checkSpelling ledger rest
    else match l.mnemonic? with
      | some .END => ledger
      | some _ => checkSpelling ledger rest
      | none =>
        checkSpelling (ledger.emit ⟨l.statementRange, .unknownKeyword l.mnemonic⟩) rest

end TeachAsm
