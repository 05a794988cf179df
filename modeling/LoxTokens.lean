import LoxTokens.Main
import LoxTokens.Proofs.Appending
import LoxTokens.Proofs.CommandLine
import LoxTokens.Proofs.DisplayedNumbers
import LoxTokens.Proofs.Dump
import LoxTokens.Proofs.Gluing
import LoxTokens.Proofs.LineByLine
import LoxTokens.Proofs.ModesApart
import LoxTokens.Proofs.Offsets
import LoxTokens.Proofs.OpenText
import LoxTokens.Proofs.Recovery
import LoxTokens.Proofs.Sessions
import LoxTokens.Proofs.TokenEquality
import LoxTokens.Proofs.Validity
