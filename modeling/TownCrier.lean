import TownCrier.EthTransaction
import TownCrier.Guarantees
import TownCrier.Delivery
import TownCrier.Insurance
import TownCrier.Answers
import TownCrier.Failures
import TownCrier.Fees
import TownCrier.Life
import TownCrier.Premium
import TownCrier.Coverage
import TownCrier.PolicySettlement
import TownCrier.Purchases
import TownCrier.Upgrade
import TownCrier.Nonces
import TownCrier.StartUp
import TownCrier.EncryptedQuery
import TownCrier.FlightRequest
import TownCrier.Votes
import TownCrier.Dues
import TownCrier.Repayment
import TownCrier.StockDate
import TownCrier.SignedAnswers
import TownCrier.FlightQueries
import TownCrier.Replies
import TownCrier.Collateral
import TownCrier.Majority
import TownCrier.OptionMarket
import TownCrier.CompleteResponse
import TownCrier.AbiLayout
import TownCrier.AbiOffsets
import TownCrier.AbiLengths
import TownCrier.AbiStrings
import TownCrier.Lookups
import TownCrier.Ciphertexts
import TownCrier.YqlLiterals
import TownCrier.UrlQuery
import TownCrier.CoinPrice
import TownCrier.SteamSearch
import TownCrier.TradeScan
import TownCrier.TradeDocument
import TownCrier.TradeRound
import TownCrier.TradeMatch
import TownCrier.HexText
import TownCrier.Sponge
import TownCrier.Digest
import TownCrier.Ecdsa
import TownCrier.Base64Texts
import TownCrier.Wallet
import TownCrier.QueryEncryption
import TownCrier.Sender
import TownCrier.Ecalls
import TownCrier.WindDown
import TownCrier.JsonGrammar
import TownCrier.Authenticity
import TownCrier.ResponseText
import TownCrier.ResponseRoundTrip
import TownCrier.Service
import TownCrier.RequestText
import TownCrier.Outgoing
import TownCrier.Exchange
import TownCrier.Feed
